import NoDiskEmu.Dxx.Geometry
import NoDiskEmu.Fat.File

/-! Opening files of a FAT file system: the choice between a plain file and a PC64 one, whose name
ends in `.P00` and which begins with a header. -/

namespace NoDiskEmu.Fat

open Library

def P00_HEADER_SIZE : ℕ := 26
def P00_CBMNAME_OFFSET : ℕ := 8
def P00_RECORDLEN_OFFSET : ℕ := 25
def CBM_NAME_LENGTH : ℕ := 16

/-- The types of files that can be created, `TYPE_SEQ` to `TYPE_REL`. -/
inductive FileType
  | seq | prg | usr | rel
  deriving DecidableEq

/-- `filetypes`. -/
def FileType.text : FileType → List UInt8
  | .seq => [83, 69, 81]
  | .prg => [80, 82, 71]
  | .usr => [85, 83, 82]
  | .rel => [82, 69, 76]

/-- `pet2asc`, for one character; the third test of the source repeats the second. -/
def pet2asc (ch : UInt8) : UInt8 :=
  if ch > 192 ∧ ch < 219 then ch - 128
  else if ch > 64 ∧ ch < 91 then ch + 32
  else if ch = 255 then 126
  else ch

def toupper (ch : UInt8) : UInt8 := if 97 ≤ ch ∧ ch ≤ 122 then ch - 32 else ch

/-- `check_imageext` finds the extension of a disk image. -/
def checkImageext (name : List UInt8) : Bool :=
  match Dxx.lastDot name with
  | none => false
  | some ext =>
    let f := toupper (ext.getD 1 0)
    let s := toupper (ext.getD 2 0)
    let t := toupper (ext.getD 3 0)
    f = 68 && (s = 54 && t = 52 || s = 78 && t = 80 || (s = 52 || s = 55 || s = 56) && t = 49 ||
      s = 56 && (t = 48 || t = 50))

/-- `is_valid_fat_char`. -/
def isValidFatChar (c : UInt8) : Bool :=
  32 ≤ c && c ≤ 126 && c ∉ [34, 42, 44, 47, 92, 58, 61, 63, 64]

/-- `is_valid_fat_name`; the test of the last character looks at the first one again. -/
def isValidFatName (name : List UInt8) : Bool :=
  name.headD 0 ≠ 32 && name.headD 0 ≠ 46 && name.all isValidFatChar

/-- `build_name`: the name of the file, and if it has a PC64 extension. -/
def buildName (mode : ℕ) (name : List UInt8) (type : FileType) : List UInt8 × Bool :=
  let name := name.map pet2asc
  if type = .prg ∧ checkImageext name then (name, false)
  else if mode = 1 ∧ type ≠ .prg ∨ mode = 2 ∨ !isValidFatName name then
    (name.map (fun c => if isValidFatChar c then c else 95) ++ 46 :: type.text.headD 0 :: [48, 48], true)
  else if mode = 3 ∧ type ≠ .prg ∨ mode = 4 then (name ++ 46 :: type.text, false)
  else (name, false)

/-- `"C64File"`. -/
def p00marker : List UInt8 := [67, 54, 52, 70, 105, 108, 101]

/-- The header of a PC64 file for the 16 bytes of `dent->name`. -/
def p00Header (name : ℕ → UInt8) (recordlen : ℕ) : List UInt8 :=
  p00marker ++ 0 :: (List.range CBM_NAME_LENGTH).map name ++ [0, UInt8.ofNat recordlen]

/-- The header of a new file. -/
def header (x00 : Bool) (name : ℕ → UInt8) (recordlen : ℕ) : List UInt8 :=
  if x00 then p00Header name recordlen else if recordlen ≠ 0 then [UInt8.ofNat recordlen] else []

/-- The characters of `dent->name` before the final 0. -/
def nameChars (name : ℕ → UInt8) : List UInt8 := ((List.range CBM_NAME_LENGTH).map name).takeWhile (· ≠ 0)

namespace State

/-- A buffer as `alloc_buffer` leaves it, with a file that is not open yet. -/
def fresh (data : ℕ → UInt8) (fh : File) (io : ℕ → Io) : State where
  data
  position := 0
  lastused := 0
  recordlen := 0
  mustflush := false
  read := false
  write := false
  sendeoi := false
  allocated := true
  dirty := false
  fptr := 0
  headersize := 0
  refill := .callbackDummy
  fh
  writable := false
  error := ERROR_OK
  io
  hung := false

def setHeadersize (s : State) (headersize : ℕ) : State := { s with headersize }

/-- An open file: the pointer is at its start. -/
def opened (s : State) (writable : Bool) : State :=
  { s with fh := { s.fh with pointer := 0 }, writable }

/-- `f_open` of the file in the buffer. -/
def fOpen (s : State) (writable : Bool) : FResult × State :=
  match s.io 0 with
  | .failed res _ => (res, s.nextIo)
  | _ => (.ok, s.nextIo.opened writable)

/-- The loop of `create_file` over the names `.x00` to `.x99`, `tries` of which are left. Without
such an extension the same name is tried again for ever. -/
def openNew (x00 : Bool) : ℕ → State → FResult × State
  | 0, s => (.exist, s)
  | tries + 1, s =>
    let r := s.fOpen true
    if r.1 = .exist then
      if x00 then openNew x00 tries r.2 else (.exist, { r.2 with hung := true })
    else r

/-- `create_file`: `fh` of the buffer is the new file. -/
def createFile (mode : ℕ) (name : ℕ → UInt8) (type : FileType) (recordlen : ℕ) (s : State) :
    FResult × State :=
  let x00 := (buildName mode (nameChars name) type).2
  let r := openNew x00 100 s
  if r.1 ≠ .ok then r
  else
    let head := header x00 name recordlen
    if head = [] then r
    else
      let w := (r.2.setHeadersize head.length).fWrite head.length fun i => head.getD i 0
      (w.1, w.2.2)

/-- The end of `fat_open_write`. -/
def startWriting (s : State) : State :=
  { s with
    write := true
    position := 2
    lastused := 2
    refill := .fatFileWrite
    data := Function.update s.data 2 13 }

/-- `fat_open_write` for a new file. -/
def fatOpenWrite (mode : ℕ) (name : ℕ → UInt8) (type : FileType) (s : State) : State :=
  let r := s.createFile mode name type 0
  if r.1 ≠ .ok then r.2.setError (parseError r.1 false) else r.2.startWriting

/-- `fat_open_write` for a file that is appended to; `x00` says that the directory entry has the type
`OPSTYPE_FAT_X00`. -/
def fatOpenAppend (x00 : Bool) (s : State) : State :=
  let r := s.fOpen true
  let s := if x00 then r.2.setHeadersize P00_HEADER_SIZE else r.2
  let l := if r.1 = .ok then s.fLseek s.fh.size else (r.1, s)
  let s := { l.2 with fptr := l.2.fh.size - l.2.headersize }
  if l.1 ≠ .ok then s.setError (parseError l.1 false) else s.startWriting

/-- The settings of `fat_open_read`. -/
def startReading (s : State) : State := { s with read := true, refill := .fatFileRead }

/-- `fat_open_read`. The result of the first refill is dropped. -/
def fatOpenRead (x00 : Bool) (s : State) : State :=
  let r := s.fOpen false
  if r.1 ≠ .ok then r.2.setError (parseError r.1 true)
  else
    let s := r.2
    let s := if x00 then (s.fLseek P00_HEADER_SIZE).2.setHeadersize P00_HEADER_SIZE else s
    s.startReading.fatFileRead.2

/-- The settings of `fat_open_rel`. -/
def startRecords (s : State) (recordlen : ℕ) : State :=
  { s with
    headersize := s.fh.pointer % 256
    recordlen
    write := true
    read := true
    refill := .fatFileSync }

/-- The first half of `fat_open_rel`, with the number of bytes that the length of a record took and the
length itself: a new file (`mode` 0) gets `length`, an existing one has it in its header. -/
def openRecords (ext : ℕ) (name : ℕ → UInt8) (x00 : Bool) (length : ℕ) (mode : Bool) (s : State) :
    FResult × ℕ × ℕ × State :=
  if !mode then
    let r := s.createFile ext name .rel length
    (r.1, 1, length, r.2)
  else
    let r := s.fOpen true
    if r.1 ≠ .ok then (r.1, 0, 0, r.2)
    else
      let l := if x00 then r.2.fLseek P00_RECORDLEN_OFFSET else (.ok, r.2)
      if l.1 ≠ .ok then (l.1, 0, 0, l.2)
      else
        let d := l.2.fRead 1
        (d.1, d.2.1, (l.2.fh.bytes l.2.fh.pointer).toNat, d.2.2)

/-- `fat_open_rel`. An existing file is opened with its own length when `length` is 0. `ext` is
`file_extension_mode`. -/
def fatOpenRel (ext : ℕ) (name : ℕ → UInt8) (x00 : Bool) (length : ℕ) (mode : Bool) (s : State) :
    State :=
  let (res, bytesread, stored, s) := s.openRecords ext name x00 length mode
  if res ≠ .ok ∨ bytesread ≠ 1 then s.setError (parseError res false)
  else
    let recordlen := if mode ∧ length = 0 then stored else length
    let r := (s.startRecords recordlen).fatFileRead
    if r.1 = false ∧ recordlen ≠ stored then r.2.setError ERROR_RECORD_MISSING else r.2

end State

end NoDiskEmu.Fat
