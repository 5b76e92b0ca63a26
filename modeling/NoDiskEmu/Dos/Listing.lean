import NoDiskEmu.Buffers.Talk
import NoDiskEmu.Fat.Open
import Mathlib.Data.List.DropRight

/-! The directory listings of `fileops.c`: the lines of a listing, and the callbacks that put one line
after the other into the buffer. What `readdir`, `next_match` and the functions for labels return is
an input. -/

namespace NoDiskEmu.Dos

open Library

def TYPE_DIR : UInt8 := 6
def FLAG_HIDDEN : UInt8 := 32
def FLAG_RO : UInt8 := 64
def FLAG_SPLAT : UInt8 := 128

/-- `date_t`, without the seconds. -/
structure Date where
  year : UInt8
  month : UInt8
  day : UInt8
  hour : UInt8
  minute : UInt8

/-- `cbmdirent_t`; `fat` says that `opstype` is `OPSTYPE_FAT`. -/
structure Dirent where
  name : ℕ → UInt8
  typeflags : UInt8
  blocksize : UInt16
  remainder : UInt8
  date : Date
  fat : Bool
  realname : List UInt8

/-- `dirformat_t`. -/
inductive DirFormat
  | cbm | cmdShort | cmdLong
  deriving DecidableEq

/-- `filetypes`. -/
def filetypes : List UInt8 :=
  [68, 69, 76, 83, 69, 81, 80, 82, 71, 85, 83, 82, 82, 69, 76, 67, 66, 77, 68, 73, 82, 63, 63, 63,
    78, 65, 84, 52, 49, 32, 55, 49, 32, 56, 49, 32]

/-- The pointer `data` of `createentry` with the memory behind it. -/
structure Pen where
  data : ℕ → UInt8
  pos : ℕ

namespace Pen

/-- `*data++ = x`. -/
def put (p : Pen) (x : UInt8) : Pen := ⟨Function.update p.data p.pos x, p.pos + 1⟩

def skip (p : Pen) (n : ℕ) : Pen := { p with pos := p.pos + n }

/-- `data[i] = x`. -/
def poke (p : Pen) (i : ℕ) (x : UInt8) : Pen := { p with data := Function.update p.data (p.pos + i) x }

/-- `appendnumber`. -/
def appendnumber (p : Pen) (value : UInt8) : Pen :=
  let p := if value ≥ 100 then p.put (48 + value / 100) else p
  let value := if value ≥ 100 then value % 100 else value
  (p.put (48 + value / 10)).put (48 + value % 10)

/-- The loop at the end of a line with a date, which runs up to the next 0. -/
def fillOnes : ℕ → Pen → Pen
  | 0, p => p
  | fuel + 1, p => if p.data p.pos = 0 then p else fillOnes fuel (p.put 1)

end Pen

/-- The end of the name of a file: its first quote or 0, or its length. -/
def nameEnd (name : ℕ → UInt8) : ℕ :=
  ((List.range Fat.CBM_NAME_LENGTH).map name).findIdx fun c => c = 34 || c = 0

/-- Byte `i` of the name in a line; a name has a quote at its end, and what is behind that is shown
without bit 7. -/
def nameByte (name : ℕ → UInt8) (i : ℕ) : UInt8 :=
  if i < nameEnd name then name i
  else if i = nameEnd name then 34
  else
    let c := if i < Fat.CBM_NAME_LENGTH then name i else 32
    if c = 0 then 32 else c &&& 127

/-- The hour on a clock of twelve. -/
def Date.hour12 (d : Date) : UInt8 := if d.hour > 12 then d.hour - 12 else d.hour

def Date.letter (d : Date) : UInt8 := if d.hour > 11 then 80 else 65

/-- The date of the long format. -/
def Pen.longDate (p : Pen) (d : Date) : Pen :=
  let p := ((p.skip 7).appendnumber d.month).put 47
  let p := (p.appendnumber d.day).put 47
  let p := (p.appendnumber (d.year % 100)).skip 3
  let p := (p.appendnumber d.hour12).put 46
  let p := (p.appendnumber d.minute).skip 1
  fillOnes 256 ((p.put d.letter).put 77)

/-- The date of the short format; `iec` is `CONFIG_HAVE_IEC`. -/
def Pen.shortDate (iec : Bool) (p : Pen) (d : Date) : Pen :=
  let p := ((p.skip 3).appendnumber d.month).put 47
  let p := (p.appendnumber d.day).skip 1
  let p := (p.appendnumber d.hour12).put 46
  let p := (p.appendnumber d.minute).skip (if iec then 1 else 0)
  fillOnes 256 (p.put d.letter)

/-- `lastused` of a line. -/
def DirFormat.lastused : DirFormat → ℕ
  | .cbm => 31
  | .cmdShort => 41
  | .cmdLong => 63

/-- `createentry`. -/
def createentry (iec : Bool) (dent : Dirent) (format : DirFormat) (c : Cursor) : Cursor :=
  let i := format.lastused
  let p : Pen := ⟨Function.update (Memory.write c.data 0 i fun _ => 32) i 0, 0⟩
  let p := (p.put (if dent.remainder ≠ 255 then dent.remainder + 2 else 1)).put 1
  let p := (p.put dent.blocksize.toUInt8).put (dent.blocksize >>> 8).toUInt8
  let p := p.skip ((if dent.blocksize < 1000 then 1 else 0) + (if dent.blocksize < 100 then 1 else 0) +
    if dent.blocksize < 10 then 1 else 0)
  let p := p.put 34
  let p := { p with data := Memory.write p.data p.pos (Fat.CBM_NAME_LENGTH + 1) (nameByte dent.name) }
  let p := p.skip (Fat.CBM_NAME_LENGTH + 1)
  let p := if dent.typeflags &&& FLAG_SPLAT ≠ 0 then p.poke 0 42 else p
  let type : ℕ → UInt8 := fun i => filetypes.getD (3 * (dent.typeflags &&& 15).toNat + i) 0
  let p := { p with data := Memory.write p.data (p.pos + 1) (if format = DirFormat.cmdShort then 1 else 3) type }
  let p := if dent.typeflags &&& FLAG_RO ≠ 0 then p.poke 4 60 else p
  let p := match format with
    | .cmdLong => p.longDate dent.date
    | .cmdShort => p.shortDate iec dent.date
    | .cbm => if dent.typeflags &&& FLAG_HIDDEN ≠ 0 then p.poke 5 72 else p
  { c with data := p.data, lastused := i }

/-! ### The callbacks -/

/-- `image_as_dir`. -/
inductive ImageDir
  | normal | dir | both
  deriving DecidableEq

/-- What `readdir` and `next_match` return. -/
inductive NextEntry
  | entry (dent : Dirent)
  | none
  | error

/-- The callbacks of a listing. -/
inductive ListingRefill
  | pdirRefill | dirRefill | rawdirRefill
  deriving DecidableEq

/-- The buffer of a listing. `saved` is the directory entry that the end of the data holds. -/
structure Listing extends Cursor where
  allocated : Bool
  refill : ListingRefill
  counter : UInt8
  format : DirFormat
  saved : Dirent
  part : ℕ

/-- A partition as `pdir_refill` sees it: its label, if there is no error, its type, and if the label
matches the pattern. -/
structure Volume where
  label : Option (ℕ → UInt8)
  typeflags : UInt8
  shown : Bool

/-- What the callbacks use: the settings, the number of free blocks, the next entry of the directory,
the partitions, and what lies on the stack. -/
structure ListingInput where
  iec : Bool
  imageAsDir : ImageDir
  free : UInt16
  next : NextEntry
  maxPart : ℕ
  volume : ℕ → Volume
  stack : Dirent

/-- `dirheader`. -/
def dirheader : List UInt8 :=
  [1, 4, 1, 1, 0, 0, 18, 34, 78, 79, 68, 73, 83, 75, 69, 77, 85, 32, 32, 32, 32, 32, 32, 32, 34, 32,
    68, 83, 32, 50, 65, 0]

/-- `syspart_line`. -/
def syspartLine : List UInt8 :=
  [1, 1, 0, 0, 32, 32, 32, 34, 83, 89, 83, 84, 69, 77, 34, 32, 32, 32, 32, 32, 32, 32, 32, 32, 32, 32,
    83, 89, 83, 32, 32, 0]

/-- `dirfooter`. -/
def dirfooter : List UInt8 :=
  [1, 1, 0, 0, 66, 76, 79, 67, 75, 83, 32, 70, 82, 69, 69, 46, 32, 32, 32, 32, 32, 32, 32, 32, 32, 32,
    32, 32, 32, 0, 0, 0]

namespace Listing

/-- `memcpy_P` of a table to the data. -/
def copy (b : Listing) (off : ℕ) (table : List UInt8) : Listing :=
  { b with data := Memory.write b.data off table.length fun i => table.getD i 0 }

def setByte (b : Listing) (i : ℕ) (x : UInt8) : Listing := { b with data := Function.update b.data i x }

def setPosition (b : Listing) (position : ℕ) : Listing := { b with position }

def setLastused (b : Listing) (lastused : ℕ) : Listing := { b with lastused }

def setSendeoi (b : Listing) : Listing := { b with sendeoi := true }

def setCounter (b : Listing) (counter : UInt8) : Listing := { b with counter }

/-- `free_buffer` and the result of a callback that failed. -/
def fail (b : Listing) : Bool × Listing := (true, { b with allocated := false })

def entry (b : Listing) (iec : Bool) (dent : Dirent) (format : DirFormat) : Listing :=
  { b with toCursor := createentry iec dent format b.toCursor }

/-- `dir_footer`. -/
def dirFooter (v : ListingInput) (b : Listing) : Bool × Listing :=
  let b := ((b.copy 0 dirfooter).setByte 2 v.free.toUInt8).setByte 3 (v.free >>> 8).toUInt8
  (false, ((b.setPosition 0).setLastused 31).setSendeoi)

/-- The loop of `pdir_refill` over the `n` partitions that are left. -/
def pdirLoop (v : ListingInput) : ℕ → Listing → Bool × Listing
  | 0, b => (false, ((b.setLastused 1).setSendeoi).copy 0 [0, 0])
  | n + 1, b =>
    let volume := v.volume b.part
    match volume.label with
    | none => b.fail
    | some name =>
      let dent := { v.stack with
        name, typeflags := volume.typeflags, blocksize := .ofNat (b.part + 1) }
      let b := { b with part := b.part + 1 }
      if volume.shown then (false, b.entry v.iec dent .cbm) else pdirLoop v n b

/-- `pdir_refill`. -/
def pdirRefill (v : ListingInput) (b : Listing) : Bool × Listing :=
  pdirLoop v (v.maxPart - b.part) (b.setPosition 0)

/-- An entry of a disk image is shown as a directory, or twice. -/
def imageEntry (v : ListingInput) (dent : Dirent) : Bool :=
  v.imageAsDir ≠ .normal && dent.fat && Fat.checkImageext dent.realname

/-- `dir_refill`. -/
def dirRefill (v : ListingInput) (b : Listing) : Bool × Listing :=
  let b := b.setPosition 0
  if b.counter ≠ 0 then
    let b := b.setCounter 0
    (false, b.entry v.iec { b.saved with typeflags := TYPE_DIR } b.format)
  else
    match v.next with
    | .entry dent =>
      if imageEntry v dent then
        if v.imageAsDir = .dir then
          let dent := { dent with typeflags := dent.typeflags &&& 240 ||| TYPE_DIR }
          (false, b.entry v.iec dent b.format)
        else (false, { b with counter := 1, saved := dent }.entry v.iec dent b.format)
      else (false, b.entry v.iec dent b.format)
    | .none => b.dirFooter v
    | .error => b.fail

/-- `rawdir_dummy_refill`. -/
def rawdirDummyRefill (b : Listing) : Bool × Listing :=
  let b := (b.setPosition (if b.counter ≠ 0 then 0 else 2)).setCounter (b.counter + 1)
  (false, if b.counter = 8 then b.setSendeoi else b)

/-- The end of `rawdir_refill`: the raw form of an entry. -/
def rawdirEntry (dent : Dirent) (b : Listing) : Bool × Listing :=
  let b := ((b.setByte 3 1).setByte 30 dent.blocksize.toUInt8).setByte 31 (dent.blocksize >>> 8).toUInt8
  let b := b.setByte 2 (dent.typeflags ^^^ FLAG_SPLAT)
  let name := Fat.nameChars dent.name
  let b := b.copy 5 (name ++ List.replicate (Fat.CBM_NAME_LENGTH - name.length) 160)
  let b := (b.setPosition (if b.counter &&& 127 ≠ 0 then 0 else 2)).setCounter (b.counter + 1)
  let b := b.setLastused 31
  (false, if b.counter &&& 127 = 8 then b.setCounter (b.counter &&& 128) else b)

/-- `rawdir_refill`. -/
def rawdirRefill (v : ListingInput) (b : Listing) : Bool × Listing :=
  let b := b.copy 0 (List.replicate 32 0)
  if b.counter &&& 128 = 0 then
    match v.next with
    | .none => b.rawdirDummyRefill
    | .error => b.fail
    | .entry dent =>
      if imageEntry v dent then
        if v.imageAsDir = .dir then
          rawdirEntry { dent with typeflags := dent.typeflags &&& 240 ||| TYPE_DIR } b
        else rawdirEntry dent { b with counter := b.counter ||| 128, saved := dent }
      else rawdirEntry dent b
  else
    let b := b.setCounter (b.counter &&& 127)
    rawdirEntry { b.saved with typeflags := TYPE_DIR } b

/-- `buf->refill(buf)`. -/
def callRefill (v : ListingInput) (b : Listing) : Bool × Listing :=
  match b.refill with
  | .pdirRefill => b.pdirRefill v
  | .dirRefill => b.dirRefill v
  | .rawdirRefill => b.rawdirRefill v

/-- A buffer as `alloc_buffer` leaves it. -/
def fresh (data : ℕ → UInt8) (saved : Dirent) : Listing where
  data
  position := 0
  lastused := 0
  recordlen := 0
  mustflush := false
  read := false
  write := false
  sendeoi := false
  allocated := true
  refill := .dirRefill
  counter := 0
  format := .cbm
  saved
  part := 0

def startReading (b : Listing) : Listing := { b with read := true, lastused := 31 }

def setRefill (b : Listing) (refill : ListingRefill) : Listing := { b with refill }

def setFormat (b : Listing) (format : DirFormat) : Listing := { b with format }

end Listing

/-- What `load_directory` works with: the command, and what the parser, `opendir`, `dir_label` and
`disk_id` make of it. -/
structure DirectoryInput where
  secondary : ℕ
  command : List UInt8
  maxPart : ℕ
  path : ℕ
  parsed : Bool
  format : DirFormat
  label : Option (ℕ → UInt8)
  id : Option (ℕ → UInt8)

/-- The command asks for the partitions. -/
def DirectoryInput.partitions (v : DirectoryInput) : Bool :=
  2 < v.command.length && v.secondary = 0 && v.command.getD 1 0 = 61 && v.command.getD 2 0 = 80

/-- The label in a fake BAM sector, with shifted spaces behind it. -/
def paddedLabel (label : ℕ → UInt8) : List UInt8 :=
  let name := ((List.range Fat.CBM_NAME_LENGTH).map label).rdropWhile (· = 32)
  name ++ List.replicate (Fat.CBM_NAME_LENGTH - name.length) 160

/-- `load_directory` on a buffer, for a partition that is no disk image or a listing that is not raw;
none when it returns without a listing. -/
def loadDirectory (v : DirectoryInput) (b : Listing) : Option Listing :=
  let b := b.startReading
  if v.partitions then
    let b := ((b.copy 0 dirheader).copy 32 syspartLine).setLastused 63
    let b := (b.setByte 4 (.ofNat v.maxPart)).setRefill .pdirRefill
    if v.command.length > 3 ∧ !v.parsed then none else some b
  else if !v.parsed then none
  else
    match v.label, v.id with
    | some label, some id =>
      let b := b.setFormat v.format
      if v.secondary ≠ 0 then
        let b := (b.copy 0 (List.replicate 256 0)).copy 142 (List.replicate 27 160)
        let b := (b.copy 142 (paddedLabel label)).copy 160 ((List.range 5).map id)
        let b := if b.data 162 = 32 then b.setByte 162 160 else b
        some (((b.setByte 0 65).setRefill .rawdirRefill).setLastused 253)
      else
        let b := (b.copy 0 dirheader).setByte 4 (.ofNat (v.path + 1))
        let b := (b.copy 8 ((List.range Fat.CBM_NAME_LENGTH).map label)).copy 26 ((List.range 5).map id)
        some (b.setRefill .dirRefill)
    | _, _ => none

/-! ### The cursor of a listing -/

namespace Listing

variable {b b' : Listing} {v : ListingInput}

/-- A fill of a listing. The raw dummies keep the `lastused` of the fill before. -/
structure Filled (b : Listing) : Prop where
  le : b.position ≤ b.lastused
  lt : b.lastused ≤ 255
  raw : b.refill = .rawdirRefill → 31 ≤ b.lastused

/-- A listing that is open: it was loaded and refilled some times, and the talk loops have moved the
position. -/
inductive Opened : Listing → Prop
  | loaded {v : DirectoryInput} {data : ℕ → UInt8} {saved : Dirent} {b : Listing}
      (load : loadDirectory v (fresh data saved) = some b) : Opened b
  | refilled {v : ListingInput} {b b' : Listing} (opened : Opened b)
      (refill : b.callRefill v = (false, b')) : Opened b'
  | moved {b : Listing} (opened : Opened b) (position : ℕ) : Opened (b.setPosition position)

theorem lastused_le (format : DirFormat) : 31 ≤ format.lastused ∧ format.lastused ≤ 255 := by
  cases format <;> decide

theorem entry_filled (b : Listing) (iec : Bool) (dent : Dirent) (format : DirFormat)
    (h : b.position = 0) : (b.entry iec dent format).Filled := by
  obtain ⟨hlow, hhigh⟩ := lastused_le format
  refine ⟨?_, hhigh, fun _ => hlow⟩
  show b.position ≤ format.lastused
  omega

theorem pdirLoop_filled {n : ℕ} (hpos : b.position = 0) (hrefill : b.refill = .pdirRefill)
    (h : pdirLoop v n b = (false, b')) : b'.Filled := by
  induction n generalizing b with
  | zero =>
    cases h
    refine ⟨?_, show 1 ≤ 255 by decide, fun hraw => ?_⟩
    · show b.position ≤ 1
      omega
    · exact absurd (hrefill.symm.trans hraw) (by decide)
  | succ n ih =>
    rw [pdirLoop] at h
    dsimp only at h
    split at h
    · cases h
    · split at h
      · cases h
        exact entry_filled _ _ _ _ hpos
      · exact ih (b := { b with part := b.part + 1 }) hpos hrefill h

theorem dirRefill_filled (h : b.dirRefill v = (false, b')) : b'.Filled := by
  rw [dirRefill] at h
  dsimp only at h
  split at h
  · cases h
    exact entry_filled _ _ _ _ rfl
  · split at h
    · split at h
      · split at h
        · cases h
          exact entry_filled _ _ _ _ rfl
        · cases h
          exact entry_filled _ _ _ _ rfl
      · cases h
        exact entry_filled _ _ _ _ rfl
    · cases h
      exact ⟨show 0 ≤ 31 by decide, show 31 ≤ 255 by decide, fun _ => le_refl 31⟩
    · cases h

theorem Filled.ite {p : Prop} [Decidable p] (h : b.Filled) (h' : b'.Filled) :
    (if p then b else b').Filled := by
  split
  · exact h
  · exact h'

theorem rawdirEntry_filled {dent : Dirent} (h : rawdirEntry dent b = (false, b')) : b'.Filled := by
  have hposition : ∀ n : UInt8, (if n &&& 127 ≠ 0 then 0 else 2) ≤ 31 := by
    intro n
    split <;> decide
  cases h
  apply Filled.ite
  · exact ⟨hposition _, show 31 ≤ 255 by decide, fun _ => le_refl 31⟩
  · exact ⟨hposition _, show 31 ≤ 255 by decide, fun _ => le_refl 31⟩

theorem rawdirRefill_filled (hlow : 31 ≤ b.lastused) (hhigh : b.lastused ≤ 255)
    (h : b.rawdirRefill v = (false, b')) : b'.Filled := by
  rw [rawdirRefill] at h
  dsimp only at h
  split at h
  · split at h
    · cases h
      have hdummy : (if b.counter ≠ 0 then 0 else 2) ≤ b.lastused := by
        split <;> omega
      exact Filled.ite ⟨hdummy, hhigh, fun _ => hlow⟩ ⟨hdummy, hhigh, fun _ => hlow⟩
    · cases h
    · split at h
      · split at h
        · exact rawdirEntry_filled h
        · exact rawdirEntry_filled h
      · exact rawdirEntry_filled h
  · exact rawdirEntry_filled h

theorem callRefill_filled (hraw : b.refill = .rawdirRefill → 31 ≤ b.lastused) (hhigh : b.lastused ≤ 255)
    (h : b.callRefill v = (false, b')) : b'.Filled := by
  rw [callRefill] at h
  cases hrefill : b.refill with
  | pdirRefill =>
    rw [hrefill] at h
    exact pdirLoop_filled (b := b.setPosition 0) rfl hrefill h
  | dirRefill =>
    rw [hrefill] at h
    exact dirRefill_filled h
  | rawdirRefill =>
    rw [hrefill] at h
    exact rawdirRefill_filled (hraw hrefill) hhigh h

theorem loadDirectory_filled {v : DirectoryInput} {data : ℕ → UInt8} {saved : Dirent}
    (h : loadDirectory v (fresh data saved) = some b) : b.Filled := by
  rw [loadDirectory] at h
  dsimp only at h
  split at h
  · split at h
    · cases h
    · cases h
      exact ⟨show 0 ≤ 63 by decide, show 63 ≤ 255 by decide, fun _ => show 31 ≤ 63 by decide⟩
  · split at h
    · cases h
    · split at h
      · split at h
        · cases h
          exact ⟨by split <;> exact Nat.zero_le _, show 253 ≤ 255 by decide, fun _ => show 31 ≤ 253 by decide⟩
        · cases h
          exact ⟨show 0 ≤ 31 by decide, show 31 ≤ 255 by decide, fun _ => le_refl 31⟩
      · cases h

/-- A listing keeps what its callbacks need. -/
theorem Opened.bounds (h : b.Opened) :
    (b.refill = .rawdirRefill → 31 ≤ b.lastused) ∧ b.lastused ≤ 255 := by
  induction h with
  | loaded load =>
    have hfilled := loadDirectory_filled load
    exact ⟨hfilled.raw, hfilled.lt⟩
  | refilled _ refill ih =>
    have hfilled := callRefill_filled ih.1 ih.2 refill
    exact ⟨hfilled.raw, hfilled.lt⟩
  | moved _ _ ih => exact ih

end Listing

end NoDiskEmu.Dos
