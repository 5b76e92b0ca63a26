import NoDiskEmu.Eeprom.State
import NoDiskEmu.Library.Run

/-! The external functions of `eeprom-fs.c`, and a machine whose steps are calls of them on handles
that the callers hold. -/

namespace NoDiskEmu.Eeprom

open Library Library.Bitmap

/-- `EEFS_MODE_READ`, `EEFS_MODE_WRITE` and `EEFS_MODE_APPEND`. -/
inductive Mode where
  | read | write | append
deriving DecidableEq

/-- The values of `eefs_error_t` that the functions return. -/
inductive Status where
  | ok | fileNotFound | fileExists | dirFull | diskFull | invalid
deriving DecidableEq

/-- `eefs_fh_t`. -/
structure Handle where
  size : ℕ
  curOffset : ℕ
  entry : ℕ
  curSector : ℕ
  curSoffset : ℕ
  curEntry : ℕ
  curSindex : ℕ
  filemode : Mode

/-- `memset(fh, 0, sizeof(eefs_fh_t))`. -/
def Handle.zero : Handle where
  size := 0
  curOffset := 0
  entry := 0
  curSector := 0
  curSoffset := 0
  curEntry := 0
  curSindex := 0
  filemode := .read

/-- The sector numbers of an entry that `eepromfs_init` marks as used. -/
def Entry.listed (e : Entry) : List ℕ :=
  ((List.range e.maxSectors).map e.sector).filter (· ≠ 255)

/-- The sector numbers of an entry up to the first `SECTOR_FREE`. -/
def Entry.leading (e : Entry) : List ℕ :=
  ((List.range e.maxSectors).map e.sector).takeWhile (· ≠ 255)

namespace Eefs

variable (c : Config)

def initEntry (s : Eefs) (i : ℕ) : Eefs :=
  let s := s.readEntry c i
  if s.buffer.deleted then s
  else (s.useEntry i).markSectors s.buffer.listed true

def eepromfsInit (s : Eefs) : Eefs :=
  (List.range c.entries).foldl (initEntry c)
    { s with
      freeSectors := c.sectorCount
      usedSectors := Memory.write s.usedSectors 0 ((c.sectorCount + 7) / 8) fun _ => 0
      usedEntries := Memory.write s.usedEntries 0 ((c.entries + 7) / 8) fun _ => 0 }

/-- One round of the loop of `eepromfs_format`, which writes only what is not erased yet. -/
def eraseWord (s : Eefs) (k : ℕ) : Eefs :=
  if (List.range 4).all fun b => s.mem (c.offset + 4 * k + b) = 0xff then s
  else { s with mem := Memory.write s.mem (c.offset + 4 * k) 4 fun _ => 0xff }

def eepromfsFormat (s : Eefs) : Eefs :=
  ((List.range ((c.size + 3) / 4)).foldl (eraseWord c) s).eepromfsInit c

/-- The loop of an append-open that loads the last entry of a file. -/
def lastEntry : ℕ → Eefs → ℕ → ℕ × Eefs
  | 0, s, diridx => (diridx, s.hang)
  | fuel + 1, s, diridx =>
    if s.buffer.nextentry ≠ 0xff then
      lastEntry fuel (s.readEntry c s.buffer.nextentry) s.buffer.nextentry
    else (diridx, s)

def openWrite (s : Eefs) (name : Name) : Status × Handle × Eefs :=
  let r := s.nextFreeEntry c 0
  if r.1 = 0xff then (.dirFull, { Handle.zero with entry := r.1 }, r.2)
  else
    (.ok,
      { Handle.zero with entry := r.1, curEntry := r.1, curSindex := 255, filemode := .write },
      (r.2.setBuffer (Entry.newName name)).writeEntry c r.1)

def openAppend (s : Eefs) (diridx : ℕ) : Status × Handle × Eefs :=
  let r := lastEntry c 257 s diridx
  (.ok,
    { Handle.zero with
      size := s.buffer.size
      curOffset := s.buffer.size
      entry := diridx
      curSector := r.2.buffer.sector (r.2.buffer.leading.length - 1)
      curSoffset := s.buffer.size % c.sectorSize
      curEntry := r.1
      filemode := .write },
    r.2)

def openRead (s : Eefs) (diridx : ℕ) : Status × Handle × Eefs :=
  (.ok,
    { Handle.zero with
      size := s.buffer.size
      entry := diridx
      curSector := s.buffer.sector 0
      curEntry := diridx },
    s)

def eepromfsOpen (s : Eefs) (name : Name) (mode : Mode) : Status × Handle × Eefs :=
  let r := s.findEntry c name
  match mode with
  | .write =>
    if r.1 ≠ 0xff then (.fileExists, Handle.zero, r.2) else openWrite c r.2 name
  | .append =>
    if r.1 = 0xff then (.fileNotFound, Handle.zero, r.2) else openAppend c r.2 r.1
  | .read =>
    if r.1 = 0xff then (.fileNotFound, Handle.zero, r.2) else openRead r.2 r.1

/-- The part of `eepromfs_write` that allocates another directory entry: it links it to the current
one, which the buffer holds, and builds it in the buffer. -/
def addEntry (s : Eefs) (fh : Handle) : Status × Handle × Eefs :=
  let r := s.nextFreeEntry c fh.curEntry
  if r.1 = 0xff then (.dirFull, fh, r.2)
  else
    let s := (r.2.setBuffer (r.2.buffer.setNextentry r.1)).writeEntry c fh.curEntry
    (.ok, { fh with curEntry := r.1, curSindex := 0 }, s.setBuffer Entry.newList)

/-- The sector is marked as used and its number is written to the current entry, which the buffer
holds. -/
def recordSector (s : Eefs) (fh : Handle) (sector : ℕ) : Eefs :=
  let s := s.markSector sector true
  (s.setBuffer (s.buffer.setSector fh.curSindex sector)).writeEntry c fh.curEntry

/-- The part of `eepromfs_write` that allocates another sector. -/
def addSector (s : Eefs) (fh : Handle) : Status × Handle × Eefs :=
  match s.nextFreeSector c fh.curSector with
  | none => (.diskFull, fh, s.hang)
  | some sector =>
    if sector = 0xff then (.diskFull, fh, s)
    else
      let s := s.readEntry c fh.curEntry
      let fh := { fh with curSector := sector, curSindex := (fh.curSindex + 1) % 256 }
      let r :=
        if s.buffer.maxSectors ≤ fh.curSindex then addEntry c s fh else (.ok, fh, s)
      if r.1 ≠ .ok then r else (.ok, r.2.1, recordSector c r.2.2 r.2.1 sector)

/-- The bytes that fit into the current sector, written to it. -/
def writeChunk (s : Eefs) (fh : Handle) (data : List UInt8) : ℕ × Handle × Eefs :=
  let n := min data.length (c.sectorSize - fh.curSoffset) % 256
  (n,
    { fh with
      size := (fh.size + n) % 65536
      curOffset := (fh.curOffset + n) % 65536
      curSoffset := (fh.curSoffset + n) % c.sectorSize },
    s.writeData c (c.sectorSize * fh.curSector + fh.curSoffset) n fun k => data.getD k 0)

/-- The loop of `eepromfs_write`; each round writes at least one byte, so the length of the data
bounds their number. -/
def writeLoop : ℕ → Eefs → Handle → List UInt8 → ℕ → Status × ℕ × Handle × Eefs
  | 0, s, fh, _, written => (.ok, written, fh, s)
  | fuel + 1, s, fh, data, written =>
    if data = [] then (.ok, written, fh, s)
    else
      let r := if fh.curSoffset = 0 then addSector c s fh else (.ok, fh, s)
      if r.1 ≠ .ok then (r.1, written, r.2.1, r.2.2)
      else
        let w := writeChunk c r.2.2 r.2.1 data
        writeLoop fuel w.2.2 w.2.1 (data.drop w.1) ((written + w.1) % 65536)

/-- The status, the number of bytes written, the handle and the file system. -/
def eepromfsWrite (s : Eefs) (fh : Handle) (data : List UInt8) : Status × ℕ × Handle × Eefs :=
  if fh.filemode ≠ .write then (.invalid, 0, fh, s)
  else writeLoop c data.length s fh data 0

/-- An `assert` of `eepromfs_read` that fails if `fault` is set. -/
def noteRead (s : Eefs) (fault : Bool) : Eefs := { s with readFault := s.readFault || fault }

/-- The part of `eepromfs_read` that moves to the next sector. -/
def advance (s : Eefs) (fh : Handle) : Handle × Eefs :=
  let s := s.readEntry c fh.curEntry
  let fh := { fh with curSindex := (fh.curSindex + 1) % 256 }
  let r :=
    if s.buffer.maxSectors ≤ fh.curSindex then
      let next := s.buffer.nextentry
      ({ fh with curEntry := next, curSindex := 0 },
        (s.noteRead (next == 0xff)).readEntry c next)
    else (fh, s)
  let sector := r.2.buffer.sector r.1.curSindex
  ({ r.1 with curSector := sector }, r.2.noteRead (sector == 0xff))

/-- The bytes that one round of `eepromfs_read` takes from the current sector. -/
def readChunk (s : Eefs) (fh : Handle) (length : ℕ) : List UInt8 :=
  (List.range (min length (c.sectorSize - fh.curSoffset) % 256)).map fun k =>
    s.data c (c.sectorSize * fh.curSector + fh.curSoffset + k)

/-- The loop of `eepromfs_read`; each round reads at least one byte, so the length bounds their
number. -/
def readLoop : ℕ → Eefs → Handle → ℕ → List UInt8 × Handle × Eefs
  | 0, s, fh, _ => ([], fh, s)
  | fuel + 1, s, fh, length =>
    if length = 0 then ([], fh, s)
    else
      let bytes := readChunk c s fh length
      let fh := { fh with
        curOffset := (fh.curOffset + bytes.length) % 65536
        curSoffset := (fh.curSoffset + bytes.length) % c.sectorSize }
      let r := if fh.curOffset ≠ fh.size ∧ fh.curSoffset = 0 then advance c s fh else (fh, s)
      let rest := readLoop fuel r.2 r.1 (length - bytes.length)
      (bytes ++ rest.1, rest.2)

/-- The status, the bytes read, the handle and the file system. A handle is never past its size, so
the difference is the one of the C types. -/
def eepromfsRead (s : Eefs) (fh : Handle) (length : ℕ) : Status × List UInt8 × Handle × Eefs :=
  if fh.filemode ≠ .read then (.invalid, [], fh, s)
  else
    let length := min length (fh.size - fh.curOffset)
    (.ok, readLoop c length s fh length)

def eepromfsClose (s : Eefs) (fh : Handle) : Handle × Eefs :=
  ({ fh with filemode := .read },
    if fh.filemode ≠ .read then
      let s := s.readEntry c fh.entry
      (s.setBuffer (s.buffer.setSize fh.size)).writeEntry c fh.entry
    else s)

def eepromfsRename (s : Eefs) (oldname newname : Name) : Status × Eefs :=
  let r := s.findEntry c newname
  if r.1 ≠ 0xff then (.fileExists, r.2)
  else
    let r := r.2.findEntry c oldname
    if r.1 = 0xff then (.fileNotFound, r.2)
    else (.ok, (r.2.setBuffer (r.2.buffer.setName newname)).writeEntry c r.1)

/-- The loop of `eepromfs_delete` at entry `diridx`, which the buffer holds. Every entry it has
passed is erased, so a walk of more than 256 rounds does not exist. -/
def deleteChain : ℕ → Eefs → ℕ → Eefs
  | 0, s, _ => s.hang
  | fuel + 1, s, diridx =>
    let next := s.buffer.nextentry
    let s := s.markSectors s.buffer.leading false
    let s := (s.setBuffer Entry.erased).writeEntry c diridx
    if next = 0xff then s else deleteChain fuel (s.readEntry c next) next

def eepromfsDelete (s : Eefs) (name : Name) : Status × Eefs :=
  let r := s.findEntry c name
  if r.1 = 0xff then (.fileNotFound, r.2) else (.ok, deleteChain c 257 r.2 r.1)

end Eefs

/-- A file system and the handles of its callers. `failed` marks a handle whose last write returned
an error and which has not been closed or opened again since. -/
structure Machine where
  fs : Eefs
  handle : ℕ → Handle
  failed : ℕ → Bool

/-- A call of one of the external functions, on handle `h` where it has one. -/
inductive Call where
  | format
  | open (h : ℕ) (name : Name) (mode : Mode)
  | write (h : ℕ) (data : List UInt8)
  | read (h length : ℕ)
  | close (h : ℕ)
  | rename (oldname newname : Name)
  | delete (name : Name)

/-- What a call gives back: its status, the number of bytes written and the bytes read. -/
structure Reply where
  status : Status
  written : ℕ
  bytes : List UInt8

def Reply.of (status : Status) : Reply := ⟨status, 0, []⟩

namespace Machine

variable (c : Config)

/-- A handle and its `failed` mark after a call on it. -/
def set (m : Machine) (h : ℕ) (fh : Handle) (failed : Bool) (fs : Eefs) : Machine where
  fs := fs
  handle := Function.update m.handle h fh
  failed := Function.update m.failed h failed

section

variable {m : Machine} {h k : ℕ} {fh : Handle} {failed : Bool} {fs : Eefs}

@[simp] theorem handle_set_self : (m.set h fh failed fs).handle h = fh := Function.update_self ..

@[simp] theorem failed_set_self : (m.set h fh failed fs).failed h = failed := Function.update_self ..

theorem handle_set_ne (hk : k ≠ h) : (m.set h fh failed fs).handle k = m.handle k :=
  Function.update_of_ne hk ..

theorem failed_set_ne (hk : k ≠ h) : (m.set h fh failed fs).failed k = m.failed k :=
  Function.update_of_ne hk ..

end

def step (m : Machine) : Call → Reply × Machine
  | .format => (Reply.of .ok, { m with fs := m.fs.eepromfsFormat c })
  | .open h name mode =>
    let r := m.fs.eepromfsOpen c name mode
    (Reply.of r.1, m.set h r.2.1 false r.2.2)
  | .write h data =>
    let r := m.fs.eepromfsWrite c (m.handle h) data
    (⟨r.1, r.2.1, []⟩, m.set h r.2.2.1 (m.failed h || r.1 ≠ .ok) r.2.2.2)
  | .read h length =>
    let r := m.fs.eepromfsRead c (m.handle h) length
    (⟨r.1, 0, r.2.1⟩, m.set h r.2.2.1 (m.failed h) r.2.2.2)
  | .close h =>
    let r := m.fs.eepromfsClose c (m.handle h)
    (Reply.of .ok, m.set h r.1 false r.2)
  | .rename oldname newname =>
    let r := m.fs.eepromfsRename c oldname newname
    (Reply.of r.1, { m with fs := r.2 })
  | .delete name =>
    let r := m.fs.eepromfsDelete c name
    (Reply.of r.1, { m with fs := r.2 })

/-- A file system just formatted, whatever the EEPROM and the variables held, and no handle open. -/
def formatted (s : Eefs) : Machine where
  fs := { s with markFault := false, readFault := false, hung := false }.eepromfsFormat c
  handle := fun _ => Handle.zero
  failed := fun _ => false

end Machine

end NoDiskEmu.Eeprom
