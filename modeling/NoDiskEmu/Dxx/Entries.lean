import NoDiskEmu.Dxx.Alloc

/-! The loops of `d64ops.c` that follow the links of an image: through the directory, to the end of a
file that is appended to, and through the sectors of a file that is scratched. -/

namespace NoDiskEmu.Dxx

open Library

def ERROR_WRITE_PROTECT : ℕ := 26
def ERROR_ILLEGAL_TS_LINK : ℕ := 67
def DIR_OFS_FILE_TYPE : ℕ := 2
def DIR_OFS_TRACK : ℕ := 3
def DIR_OFS_SECTOR : ℕ := 4
def DIR_OFS_SIZE_LOW : ℕ := 30
def DIR_OFS_SIZE_HI : ℕ := 31
def DNP_DIRHEADER_PARENTENTRY_TRACK : ℕ := 36

/-- `struct d64dh`: an entry of a directory sector. -/
structure D64dh where
  track : ℕ
  sector : ℕ
  entry : ℕ

def State.setScratch (s : State) (scratch : ℕ → UInt8) : State := { s with scratch }

/-- Where an entry lies in the image file. -/
def entryOffset (s : State) (part : ℕ) (dh : D64dh) : ℕ :=
  s.offset part dh.track dh.sector + dh.entry * 32

/-- `read_entry` into `ops_scratch`. -/
def readEntry (s : State) (part : ℕ) (dh : D64dh) : ℕ × State :=
  let r := imageRead s part (entryOffset s part dh) 32 s.scratch
  (r.1, r.2.2.setScratch r.2.1)

/-- `write_entry` from `ops_scratch`. -/
def writeEntry (s : State) (part : ℕ) (dh : D64dh) : ℕ × State :=
  imageWrite s part (entryOffset s part dh) 32 s.scratch

/-- The part of `nextdirentry` that goes on to the next sector after the last entry of one. -/
def nextdirsector (part : ℕ) (dh : D64dh) (s : State) : ℤ × D64dh × State :=
  if dh.entry = 8 then
    let r := checkedRead s part dh.track dh.sector s.scratch 2 ERROR_ILLEGAL_TS_LINK
    let s := r.2.2.setScratch r.2.1
    if r.1 ≠ 0 then (1, dh, s)
    else if s.scratch 0 = 0 then (-1, dh, s)
    else (0, ⟨(s.scratch 0).toNat, (s.scratch 1).toNat, 0⟩, s)
  else (0, dh, s)

/-- `nextdirentry`. -/
def nextdirentry (part : ℕ) (dh : D64dh) (s : State) : ℤ × D64dh × State :=
  let n := nextdirsector part dh s
  if n.1 ≠ 0 then n
  else
    let dh := n.2.1
    let s := n.2.2
    if dh.track < 1 ∨ dh.track > s.lastTrack part ∨
        dh.sector ≥ sectorsPerTrack (s.type part) dh.track then
      (1, dh, s.setErrorTs ERROR_ILLEGAL_TS_LINK dh.track dh.sector)
    else
      let r := readEntry s part dh
      if r.1 ≠ 0 then (1, dh, r.2) else (0, { dh with entry := dh.entry + 1 }, r.2)

/-- `d64_opendir` for the directory whose `path_t` has the given track and sector. -/
def d64Opendir (part track sector : ℕ) (s : State) : ℕ × D64dh × State :=
  if s.isDnp part then
    let r := imageRead s part (s.offset part track sector) 2 fun _ => 0
    if r.1 ≠ 0 then (1, ⟨track, sector, 0⟩, r.2.2)
    else (0, ⟨(r.2.1 0).toNat, (r.2.1 1).toNat, 0⟩, r.2.2)
  else (0, ⟨track, sector, 0⟩, s)

/-- The loop of `d64_readdir`, which skips empty entries. -/
def readdirRound (part : ℕ) (x : D64dh × State) : ℤ × D64dh × State ⊕ D64dh × State :=
  let r := nextdirentry part x.1 x.2
  if r.1 ≠ 0 then .inl r
  else if r.2.2.scratch DIR_OFS_FILE_TYPE ≠ 0 then .inl r
  else .inr r.2

/-- `d64_readdir` is called until it stops returning 0. -/
def readAll (part : ℕ) : ℕ → D64dh × State → Option (ℤ × D64dh × State)
  | 0, _ => none
  | fuel + 1, x =>
    match Walk.loop (readdirRound part) (fuel + 1) x with
    | none => none
    | some r => if r.1 = 0 then readAll part fuel r.2 else some r

/-- The loop of `find_empty_entry`. -/
def findEmptyRound (part : ℕ) (x : D64dh × State) : ℤ × D64dh × State ⊕ D64dh × State :=
  let r := nextdirentry part x.1 x.2
  if r.1 = 0 ∧ r.2.2.scratch DIR_OFS_FILE_TYPE ≠ 0 then .inr r.2 else .inl r

/-- The block count of a DNP directory in the directory above it. -/
def countDnpBlock (part track sector : ℕ) (s : State) : ℕ × State :=
  let r := imageRead s part (DNP_DIRHEADER_PARENTENTRY_TRACK + s.offset part track sector) 3 s.scratch
  let s := r.2.2.setScratch r.2.1
  if r.1 ≠ 0 then (1, s)
  else if s.scratch 0 = 0 then (0, s)
  else
    let off := s.offset part (s.scratch 0).toNat (s.scratch 1).toNat + (s.scratch 2).toNat +
      DIR_OFS_SIZE_LOW - 2
    let r := imageRead s part off 2 fun i => s.scratch (3 + i)
    if r.1 ≠ 0 then (1, r.2.2)
    else
      let blocks := ((r.2.1 0).toNat + 256 * (r.2.1 1).toNat + 1) % 65536
      let bytes : ℕ → UInt8 := fun i => .ofNat (if i = 0 then blocks else blocks / 256)
      let s := r.2.2.setScratch (Memory.write r.2.2.scratch 3 2 bytes)
      let w := imageWrite s part off 2 bytes
      (if w.1 ≠ 0 then 1 else 0, w.2)

/-- The entries of a new directory sector are cleared; its first two bytes say that it is the last
one. -/
def clearEntries (part : ℕ) (dh : D64dh) : ℕ → State → ℕ × State
  | 0, s => (0, s)
  | count + 1, s =>
    let w := writeEntry s part { dh with entry := 7 - count }
    if w.1 ≠ 0 then (1, w.2)
    else clearEntries part dh count (w.2.setScratch (Function.update w.2.scratch 1 0))

/-- The part of `find_empty_entry` after a sector for more entries was found: `old` is the last sector
of the directory so far. -/
def extendDirectory (part track sector : ℕ) (old dh : D64dh) (s : State) : ℕ × D64dh × State :=
  let s := s.setScratch (Memory.write s.scratch 0 2 fun i =>
    .ofNat (if i = 0 then dh.track else dh.sector))
  let w := imageWrite s part (s.offset part old.track old.sector) 2 s.scratch
  if w.1 ≠ 0 then (1, dh, w.2)
  else
    let a := allocateSector w.2 part dh.track dh.sector
    if a.1 ≠ 0 then (1, dh, a.2)
    else
      let c := if a.2.isDnp part then countDnpBlock part track sector a.2 else (0, a.2)
      if c.1 ≠ 0 then (1, dh, c.2)
      else
        let s := c.2.setScratch (Memory.write c.2.scratch 0 32 fun i => if i = 1 then 255 else 0)
        let r := clearEntries part dh 8 s
        if r.1 ≠ 0 then (1, dh, r.2)
        else (0, { dh with entry := 0 }, r.2.setScratch (Function.update r.2.scratch 1 255))

/-- `find_empty_entry` for the directory whose `path_t` has the given track and sector. -/
def findEmptyEntry (fuel part track sector : ℕ) (s : State) : Option (ℕ × D64dh × State) :=
  match Walk.loop (findEmptyRound part) fuel (d64Opendir part track sector s).2 with
  | none => none
  | some (res, dh, s) =>
    if res > 0 then some (1, dh, s)
    else if res < 0 then
      match getNextSector fuel part dh.track dh.sector s with
      | none => none
      | some (code, newtrack, newsector, s) =>
        if code ≠ 0 then some (1, ⟨newtrack, newsector, dh.entry⟩, s)
        else some (extendDirectory part track sector dh ⟨newtrack, newsector, dh.entry⟩ s)
    else some (0, { dh with entry := dh.entry - 1 }, s)

/-- The fields of `buffer_t` that the files of an image use. -/
structure FileBuffer where
  data : ℕ → UInt8
  position : ℕ
  lastused : ℕ
  sendeoi : Bool
  mustflush : Bool
  read : Bool
  part : ℕ
  track : ℕ
  sector : ℕ
  dh : D64dh
  blocks : ℕ
  freed : Bool

/-- `d64_read`. -/
def d64Read (buf : FileBuffer) (s : State) : ℕ × FileBuffer × State :=
  let track := (buf.data 0).toNat
  let sector := (buf.data 1).toNat
  let r := checkedRead s buf.part track sector buf.data 256 ERROR_ILLEGAL_TS_LINK
  let buf := { buf with track, sector, data := r.2.1 }
  if r.1 ≠ 0 then (1, { buf with freed := true }, r.2.2)
  else if buf.data 0 = 0 then
    (0, { buf with position := 2, lastused := (buf.data 1).toNat, sendeoi := true }, r.2.2)
  else (0, { buf with position := 2, lastused := 255, sendeoi := false }, r.2.2)

/-- `d64_open_read`, for the directory entry `dh`. -/
def d64OpenRead (part : ℕ) (dh : D64dh) (buf : FileBuffer) (s : State) : FileBuffer × State :=
  let r := readEntry s part dh
  if r.1 ≠ 0 then (buf, r.2)
  else
    let link : ℕ → UInt8 := fun i => r.2.scratch (DIR_OFS_TRACK + i)
    (d64Read { buf with data := Memory.write buf.data 0 2 link, part, read := true } r.2).2

/-- The loop of `d64_open_write` to the last sector of the file. -/
def appendRound (x : FileBuffer × State) : FileBuffer × State ⊕ FileBuffer × State :=
  if x.2.error.code = ERROR_OK ∧ x.1.data 0 ≠ 0 then .inr (d64Read x.1 x.2).2 else .inl x

/-- `d64_open_write` for a file that is appended to; `timestamp` is `update_timestamp`. -/
def d64OpenAppend (timestamp : (ℕ → UInt8) → ℕ → UInt8) (fuel part : ℕ) (dh : D64dh)
    (buf : FileBuffer) (s : State) : Option (FileBuffer × State) :=
  if !(s.partition part).writable then some (buf, s.setError ERROR_WRITE_PROTECT)
  else
    match Walk.loop appendRound fuel (d64OpenRead part dh buf s) with
    | none => none
    | some (buf, s) =>
      if s.error.code ≠ ERROR_OK then some (buf, s)
      else
        let size := (s.scratch DIR_OFS_SIZE_LOW).toNat + 256 * (s.scratch DIR_OFS_SIZE_HI).toNat
        let position := (buf.lastused + 1) % 256
        let buf := { buf with
          dh, position
          blocks := (size + 65535) % 65536
          read := false
          mustflush := decide (position = 0) }
        some (buf, (writeEntry (s.setScratch (timestamp s.scratch)) buf.part dh).2)

/-- The loop of `d64_delete` over the links of a file: 0 when the last sector is freed, 255 on an
error. -/
def deleteRound (part : ℕ) (x : (ℕ → UInt8) × State) : ℕ × State ⊕ (ℕ → UInt8) × State :=
  let track := (x.1 0).toNat
  let sector := (x.1 1).toNat
  let f := freeSector x.2 part track sector
  let r := checkedRead f.2 part track sector x.1 2 ERROR_ILLEGAL_TS_LINK
  if r.1 ≠ 0 then .inl (255, r.2.2)
  else if r.2.1 0 ≠ 0 then .inr r.2
  else .inl (0, r.2.2)

/-- `d64_delete`, for the directory entry `dh`. -/
def d64Delete (fuel part : ℕ) (dh : D64dh) (s : State) : Option (ℕ × State) :=
  let e := readEntry s part dh
  if e.1 ≠ 0 then some (255, e.2)
  else
    match Walk.loop (deleteRound part) fuel (fun i => e.2.scratch (DIR_OFS_TRACK + i), e.2) with
    | none => none
    | some (code, s) =>
      if code ≠ 0 then some (255, s)
      else
        let w := writeEntry (s.setScratch (Function.update s.scratch DIR_OFS_FILE_TYPE 0)) part dh
        some (if w.1 ≠ 0 then 255 else 1, w.2)

end NoDiskEmu.Dxx
