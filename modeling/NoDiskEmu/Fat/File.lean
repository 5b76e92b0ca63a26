import NoDiskEmu.Buffers.Loops
import NoDiskEmu.Library.File

/-! Files of a FAT file system as `fatops.c` works with them: a buffer and the FatFs file behind it.
FatFs files are arrays of bytes with a pointer; the outcome of each coming call of FatFs is an
input. -/

namespace NoDiskEmu.Fat

open Library

/-- `FRESULT`. -/
inductive FResult
  | ok | notReady | noFile | noPath | invalidName | invalidDrive | denied | exist | rwError
  | writeProtected | notEnabled | noFilesystem | invalidObject | mkfsAborted | isDirectory | isReadonly
  | dirNotEmpty | notDirectory
  deriving DecidableEq, Repr

def ERROR_OK : ℕ := 0
def ERROR_READ_NOHEADER : ℕ := 20
def ERROR_WRITE_VERIFY : ℕ := 25
def ERROR_WRITE_PROTECT : ℕ := 26
def ERROR_SYNTAX_UNABLE : ℕ := 31
def ERROR_SYNTAX_JOKER : ℕ := 33
def ERROR_FILE_NOT_FOUND_39 : ℕ := 39
def ERROR_RECORD_MISSING : ℕ := 50
def ERROR_RECORD_OVERFLOW : ℕ := 51
def ERROR_FILE_NOT_FOUND : ℕ := 62
def ERROR_FILE_EXISTS : ℕ := 63
def ERROR_DISK_FULL : ℕ := 72
def ERROR_DRIVE_NOT_READY : ℕ := 74

/-- `parse_error`, the number of the message. -/
def parseError (res : FResult) (readflag : Bool) : ℕ :=
  match res with
  | .ok => ERROR_OK
  | .noFile => ERROR_FILE_NOT_FOUND
  | .noPath | .notDirectory => ERROR_FILE_NOT_FOUND_39
  | .invalidName => ERROR_SYNTAX_JOKER
  | .notReady | .invalidDrive | .notEnabled | .noFilesystem => ERROR_DRIVE_NOT_READY
  | .rwError => if readflag then ERROR_READ_NOHEADER else ERROR_WRITE_VERIFY
  | .writeProtected => ERROR_WRITE_PROTECT
  | .exist | .dirNotEmpty | .isReadonly | .isDirectory => ERROR_FILE_EXISTS
  | .denied => ERROR_DISK_FULL
  | .invalidObject => ERROR_DRIVE_NOT_READY
  | .mkfsAborted => ERROR_SYNTAX_UNABLE

/-- The outcome of a call of FatFs; a write that is short has filled the disk. -/
inductive Io
  | ok
  | short (count : ℕ)
  | failed (res : FResult) (ne : res ≠ .ok)

/-- The functions that `refill` can point to. -/
inductive Refill
  | callbackDummy | fatFileRead | fatFileWrite | fatFileSync
  deriving DecidableEq

/-- A buffer with its file, the error number and the outcomes of the coming calls of FatFs.
`writable` is the `FA_WRITE` flag of the file; `hung` says that the loop of `fat_file_write` ran on
with a counter below 0. -/
structure State extends Cursor where
  allocated : Bool
  dirty : Bool
  fptr : ℕ
  headersize : ℕ
  refill : Refill
  fh : File
  writable : Bool
  error : ℕ
  io : ℕ → Io
  hung : Bool

namespace State

def nextIo (s : State) : State := { s with io := fun n => s.io (n + 1) }

/-- `free_buffer`. -/
def freeBuffer (s : State) : State := { s with allocated := false }

def setError (s : State) (error : ℕ) : State := { s with error }

def setFh (s : State) (fh : File) : State := { s with fh }

/-- The way out of a callback after an error: the buffer is free. -/
def fail (s : State) (error : ℕ) : Bool × State := (true, (s.setError error).freeBuffer)

/-- `f_read`, with the number of bytes; they are those at the file pointer. -/
def fRead (s : State) (n : ℕ) : FResult × ℕ × State :=
  match s.io 0 with
  | .failed res _ => (res, 0, s.nextIo)
  | _ => (.ok, s.fh.available n, s.nextIo.setFh (s.fh.read n))

/-- `f_write`, with the number of bytes. -/
def fWrite (s : State) (n : ℕ) (data : ℕ → UInt8) : FResult × ℕ × State :=
  match s.io 0 with
  | .ok => (.ok, n, s.nextIo.setFh (s.fh.write n data))
  | .short count => (.ok, min count n, s.nextIo.setFh (s.fh.write (min count n) data))
  | .failed res _ => (res, 0, s.nextIo)

/-- `f_lseek`: only a file that is open for writing is extended. -/
def fLseek (s : State) (pos : ℕ) : FResult × State :=
  match s.io 0 with
  | .failed res _ => (res, s.nextIo)
  | _ => (.ok, s.nextIo.setFh (s.fh.seek (if s.writable then pos else min pos s.fh.size)))

/-- The loop of `fat_file_read` that strips zeros from the end of a record; `lastused` is a byte. -/
def stripNulls (data : ℕ → UInt8) : ℕ → ℕ → ℕ
  | 0, lastused => lastused
  | fuel + 1, lastused =>
    if data lastused = 0 then
      let lastused := (lastused + 255) % 256
      if lastused > 1 then stripNulls data fuel lastused else lastused
    else lastused

/-- `fat_file_read`. -/
def fatFileRead (s : State) : Bool × State :=
  let start := s.fh.pointer
  let s := { s with fptr := start - s.headersize }
  let r := s.fRead (if s.recordlen ≠ 0 then s.recordlen else 254)
  let s := r.2.2
  if r.1 ≠ .ok then s.fail (parseError r.1 true)
  else
    let data := Memory.write s.data 2 r.2.1 fun i => s.fh.bytes (start + i)
    let data := if r.2.1 = 0 then Function.update data 2 (if s.recordlen ≠ 0 then 255 else 13) else data
    let bytesread := if r.2.1 = 0 then 1 else r.2.1
    let lastused := (bytesread + 1) % 256
    (false, { s with
      data
      position := 2
      lastused := if s.recordlen ≠ 0 then stripNulls data 256 lastused else lastused
      sendeoi := bytesread < 254 ∨ s.fh.size - s.fh.pointer = 0 ∨ s.recordlen ≠ 0 })

/-- `n - 1` as a `UINT`, which has 16 bits. -/
def uintPred (n : ℕ) : ℕ := (n + 65535) % 65536

theorem uintPred_succ {n : ℕ} (h : n ≤ 255) : uintPred (n + 1) = n := by
  rw [uintPred]
  omega

/-- `write_data`. -/
def writeData (s : State) : Bool × State :=
  let lastused := if s.mustflush then s.lastused else (s.position + 255) % 256
  let data := Memory.write s.data (lastused + 1) (s.recordlen + 1 - lastused) fun _ => 0
  let lastused := if s.recordlen ≠ 0 then (s.recordlen + 1) % 256 else lastused
  let s := { s with data, lastused }
  let w := s.fWrite (uintPred lastused) fun i => data (2 + i)
  let s := w.2.2
  if w.1 ≠ .ok then s.fail (parseError w.1 true)
  else if w.2.1 ≠ uintPred lastused then s.fail ERROR_DISK_FULL
  else (false, { s with
    dirty := false
    mustflush := false
    position := 2
    lastused := 2
    fptr := s.fh.pointer - s.headersize })

/-- The loop of `fat_file_write` that fills `i` bytes with empty records, or with zeros. -/
def fillBytes : ℕ → ℕ → State → Bool × State
  | 0, i, s => (false, if i = 0 then s else { s with hung := true })
  | fuel + 1, i, s =>
    if i = 0 then (false, s)
    else
      let lastused := if s.recordlen ≠ 0 then s.recordlen else min i 254
      if i < lastused then (false, { s with hung := true })
      else
        let w := { s with lastused, position := (lastused + 2) % 256 }.writeData
        if w.1 then w else fillBytes fuel (i - lastused) w.2

/-- The part of `fat_file_write` after a write past the end of the file, whose data ended at
`fptr`. -/
def fillGap (s : State) (fptr i : ℕ) : Bool × State :=
  let l := s.fLseek (s.headersize + fptr)
  let s := { l.2 with
    mustflush := false
    fptr
    data := Function.update (Memory.write l.2.data 3 253 fun _ => 0) 2
      (if l.2.recordlen ≠ 0 then 255 else 0) }
  let f := if l.1 = .ok then fillBytes i i s else (false, s)
  if f.1 then f
  else
    let l := f.2.fLseek f.2.fh.size
    if l.1 ≠ .ok then l.2.fail (parseError l.1 true)
    else (false, { l.2 with fptr := l.2.fh.pointer - l.2.headersize })

/-- `fat_file_write`. -/
def fatFileWrite (s : State) : Bool × State :=
  let fptr := s.fh.size - s.headersize
  let start := s.fptr
  let l := if start ≠ fptr then s.fLseek (s.headersize + start) else (.ok, s)
  if l.1 ≠ .ok then l.2.fail (parseError l.1 true)
  else
    let w := l.2.writeData
    if w.1 then w
    else if start > fptr then w.2.fillGap fptr (start - fptr) else w

/-- `fat_file_seek`. -/
def fatFileSeek (s : State) (position index : ℕ) : Bool × State :=
  let pos := position + s.headersize
  let w := if s.dirty then s.fatFileWrite else (false, s)
  if w.1 then w
  else
    let s := w.2
    let r :=
      if s.fh.size ≥ pos then
        let l := s.fLseek pos
        if l.1 ≠ .ok then l.2.fail (parseError l.1 false) else l.2.fatFileRead
      else (false, { s with
        data := Function.update s.data 2 (if s.recordlen ≠ 0 then 255 else 13)
        lastused := 2
        fptr := position
        error := ERROR_RECORD_MISSING })
    if r.1 then r
    else (false, { r.2 with
      position := if index + 2 > r.2.lastused then r.2.lastused else index + 2 })

/-- `fat_file_sync`. -/
def fatFileSync (s : State) : Bool × State := s.fatFileSeek (s.fptr + s.recordlen) 0

/-- `buf->refill(buf)`. -/
def callRefill (s : State) : Bool × State :=
  match s.refill with
  | .callbackDummy => (false, s)
  | .fatFileRead => s.fatFileRead
  | .fatFileWrite => s.fatFileWrite
  | .fatFileSync => s.fatFileSync

/-- `fat_file_close`. -/
def fatFileClose (s : State) : Bool × State :=
  if !s.allocated then (false, s)
  else
    let r := if s.write then s.callRefill else (false, s)
    if r.1 then r
    else
      let res : FResult := match r.2.io 0 with
        | .failed res _ => res
        | _ => .ok
      (decide (res ≠ .ok), r.2.nextIo.setError (parseError res true))

/-- The channel of a file on a secondary address other than 15. -/
def channel : Channel State where
  cursor := State.toCursor
  store s c := { s with toCursor := c }
  markDirty s := { s with dirty := true }
  refill := callRefill
  find s := if s.allocated then some s else none
  command := false
  direct _ := false

end State

end NoDiskEmu.Fat
