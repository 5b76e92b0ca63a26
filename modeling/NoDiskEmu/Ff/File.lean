import NoDiskEmu.Ff.Clusters
import NoDiskEmu.Fat.File

/-! Open files of `ff.c`: `f_read`, `f_write` and `f_lseek`. -/

namespace NoDiskEmu.Ff

open Library Fat

/-- `FIL`, with the bits of its flag that count. -/
structure Fil where
  fs : Option ℕ
  read : Bool
  write : Bool
  written : Bool
  error : Bool
  csect : ℕ
  fptr : ℕ
  fsize : ℕ
  orgClust : ℕ
  currClust : ℕ
  currSect : ℕ
  dirSect : ℕ
  dirPtr : ℕ

/-- `clust2sect`, 0 for an invalid cluster. -/
def Volume.clust2sect (v : Volume) (clust : ℕ) : ℕ :=
  if 2 ≤ clust ∧ clust < v.maxClust then (clust - 2) * v.csize + v.database else 0

/-- `validate`; the volume is mounted if there is one. -/
def Disk.validate (s : Disk) (fs : Option ℕ) : FResult × Disk :=
  match fs, s.io 0 with
  | none, _ => (.invalidObject, s)
  | some _, .ok => (.ok, s.nextIo)
  | some _, .failed _ => (.notReady, s.nextIo)

namespace Fil

/-- A file that cannot be used any more because of an error. -/
def abort (fp : Fil) : Fil := { fp with error := true }

def advance (fp : Fil) (n : ℕ) : Fil := { fp with fptr := fp.fptr + n }

/-- `--fp->csect`. -/
def decSect (fp : Fil) : Fil := { fp with csect := (fp.csect + 255) % 256 }

/-- The file goes on with the first sector of a cluster. -/
def enter (fp : Fil) (v : Volume) (clust : ℕ) : Fil := { fp with currClust := clust, csect := v.csize }

@[simp] theorem advance_fptr (fp : Fil) (n : ℕ) : (fp.advance n).fptr = fp.fptr + n := rfl

@[simp] theorem advance_csect (fp : Fil) (n : ℕ) : (fp.advance n).csect = fp.csect := rfl

@[simp] theorem advance_currSect (fp : Fil) (n : ℕ) : (fp.advance n).currSect = fp.currSect := rfl

@[simp] theorem decSect_fptr (fp : Fil) : fp.decSect.fptr = fp.fptr := rfl

@[simp] theorem decSect_orgClust (fp : Fil) : fp.decSect.orgClust = fp.orgClust := rfl

@[simp] theorem decSect_currClust (fp : Fil) : fp.decSect.currClust = fp.currClust := rfl

@[simp] theorem decSect_currSect (fp : Fil) : fp.decSect.currSect = fp.currSect := rfl

section Transfer

variable (vol : ℕ → Volume) (fs : ℕ)

/-- The window is written back, and the file is at another sector. -/
def moveTo (fp : Fil) (s : Disk) (sect : ℕ) : Bool × Fil × Disk :=
  let m := s.moveWindow vol fs 0
  if m.1 then (true, { fp with currSect := sect }, m.2) else (false, fp, m.2)

/-- The part of the loop of `f_read` on the sector boundary. -/
def readSector (fp : Fil) (s : Disk) : Bool × Fil × Disk :=
  let fp := fp.decSect
  if fp.csect ≠ 0 then fp.moveTo vol fs s (fp.currSect + 1)
  else
    let g := if fp.fptr = 0 then (fp.orgClust, s) else s.getCluster vol fs fp.currClust
    if g.1 < 2 ∨ (vol fs).maxClust ≤ g.1 then (false, fp, g.2)
    else (fp.enter (vol fs) g.1).moveTo vol fs g.2 ((vol fs).clust2sect g.1)

/-- The transfer of a round of `f_read`: whole sectors past the buffer, or bytes of one sector. -/
def readPart (fp : Fil) (s : Disk) (btr : ℕ) : Option (List UInt8) × Fil × Disk :=
  if fp.fptr % 512 = 0 ∧ btr / 512 ≠ 0 then
    let cc := min (btr / 512) fp.csect
    match s.io 0 with
    | .failed _ => (none, fp, s.nextIo)
    | .ok =>
      (some ((List.range (cc * 512)).map fun i => s.buf.medium (fs, fp.currSect + i / 512) (i % 512)),
        { fp with csect := fp.csect - (cc - 1), currSect := fp.currSect + (cc - 1) }, s.nextIo)
  else
    let m := s.moveWindow vol fs fp.currSect
    if m.1 then
      (some ((List.range (min (512 - fp.fptr % 512) btr)).map fun i => m.2.buf.block (fp.fptr % 512 + i)), fp, m.2)
    else (none, fp, m.2)

/-- The loop of `f_read`, with the bytes that it transfers. -/
def readLoop : ℕ → ℕ → Fil → Disk → Bool × List UInt8 × Fil × Disk
  | 0, _, fp, s => (true, [], fp, s)
  | fuel + 1, btr, fp, s =>
    if btr = 0 then (true, [], fp, s)
    else
      let b := if fp.fptr % 512 = 0 then fp.readSector vol fs s else (true, fp, s)
      if b.1 then
        let p := b.2.1.readPart vol fs b.2.2 btr
        match p.1 with
        | none => (false, [], p.2)
        | some data =>
          let r := readLoop fuel (btr - data.length) (p.2.1.advance data.length) p.2.2
          (r.1, data ++ r.2.1, r.2.2)
      else (false, [], b.2)

/-- How the loop of `f_write` goes on at the sector boundary. -/
inductive Turn
  | go | full | error
  deriving DecidableEq

/-- The part of the loop of `f_write` on the sector boundary. -/
def writeSector (fp : Fil) (s : Disk) : Turn × Fil × Disk :=
  let fp := fp.decSect
  if fp.csect ≠ 0 then
    let m := fp.moveTo vol fs s (fp.currSect + 1)
    (if m.1 then .go else .error, m.2)
  else
    let c := if fp.fptr = 0 then if fp.orgClust = 0 then s.createChain vol fs 0 else (fp.orgClust, s)
      else s.createChain vol fs fp.currClust
    let fp := if fp.fptr = 0 then { fp with orgClust := c.1 } else fp
    if c.1 = 0 then (.full, fp, c.2)
    else if c.1 = 1 ∨ (vol fs).maxClust ≤ c.1 then (.error, fp, c.2)
    else
      let m := (fp.enter (vol fs) c.1).moveTo vol fs c.2 ((vol fs).clust2sect c.1)
      (if m.1 then .go else .error, m.2)

/-- `cc` sectors that are written past the buffer. -/
def writeDirect (s : Disk) (sect : ℕ) (wbuff : List UInt8) : ℕ → Disk
  | 0 => s
  | cc + 1 =>
    let s := writeDirect s sect wbuff cc
    { s with buf := s.buf.direct (fs, sect + cc) fun i => wbuff.getD (cc * 512 + i) 0 }

/-- The transfer of a round of `f_write`, with the number of bytes. -/
def writePart (fp : Fil) (s : Disk) (wbuff : List UInt8) : Option ℕ × Fil × Disk :=
  if fp.fptr % 512 = 0 ∧ wbuff.length / 512 ≠ 0 then
    let cc := min (wbuff.length / 512) fp.csect
    match s.io 0 with
    | .failed _ => (none, fp, s.nextIo)
    | .ok =>
      (some (cc * 512), { fp with csect := fp.csect - (cc - 1), currSect := fp.currSect + (cc - 1) },
        writeDirect fs s.nextIo fp.currSect wbuff cc)
  else
    let wcnt := min (512 - fp.fptr % 512) wbuff.length
    let m := s.moveWindow vol fs fp.currSect
    let data := Memory.write m.2.buf.block (fp.fptr % 512) wcnt fun i => wbuff.getD i 0
    if m.1 then (some wcnt, fp, { m.2 with buf := m.2.buf.store data }) else (none, fp, m.2)

/-- The loop of `f_write`, with the number of bytes that it transfers. -/
def writeLoop : ℕ → List UInt8 → Fil → Disk → Bool × ℕ × Fil × Disk
  | 0, _, fp, s => (true, 0, fp, s)
  | fuel + 1, wbuff, fp, s =>
    if wbuff.length = 0 then (true, 0, fp, s)
    else
      let b := if fp.fptr % 512 = 0 then fp.writeSector vol fs s else (.go, fp, s)
      match b.1 with
      | .full => (true, 0, b.2)
      | .error => (false, 0, b.2)
      | .go =>
        let p := b.2.1.writePart vol fs b.2.2 wbuff
        match p.1 with
        | none => (false, 0, p.2)
        | some wcnt =>
          let r := writeLoop fuel (wbuff.drop wcnt) (p.2.1.advance wcnt) p.2.2
          (r.1, wcnt + r.2.1, r.2.2)

/-- The loop of `f_lseek` that follows the chain, with the offset in the last cluster. -/
def seekLoop : ℕ → ℕ → ℕ → Fil → Disk → Bool × ℕ × Fil × Disk
  | 0, _, ofs, fp, s => (false, ofs, fp, s)
  | fuel + 1, clust, ofs, fp, s =>
    let fp := { fp with currClust := clust }
    if ofs ≤ (vol fs).csize * 512 then (true, ofs, fp, s)
    else
      let c := if fp.write then s.createChain vol fs clust else s.getCluster vol fs clust
      if c.1 = 0 then (true, (vol fs).csize * 512, fp, c.2)
      else if c.1 < 2 ∨ (vol fs).maxClust ≤ c.1 then (false, ofs, fp, c.2)
      else seekLoop fuel c.1 (ofs - (vol fs).csize * 512) (fp.advance ((vol fs).csize * 512)) c.2

/-- The sector fields for an offset in the current cluster; `csect` is a `CHAR`. -/
def setSector (fp : Fil) (ofs : ℕ) : Fil :=
  let csect := (ofs + (2 ^ 32 - 1)) % 2 ^ 32 / 512 % 256
  { fp with
    currSect := ((vol fs).clust2sect fp.currClust + csect + if 128 ≤ csect then 2 ^ 32 - 256 else 0) % 2 ^ 32
    csect := ((vol fs).csize + 256 - csect) % 256 }

/-- The part of `f_lseek` for a position other than 0. -/
def seekOn (fp : Fil) (s : Disk) (ofs : ℕ) : Bool × Fil × Disk :=
  let csize := (vol fs).csize * 512
  if ofs / csize = (fp.fptr + (2 ^ 32 - 1)) % 2 ^ 32 / csize then
    (true, { fp with fptr := ofs }.setSector vol fs (ofs - ofs / csize * csize), s)
  else
    let fp := { fp with csect := 1 }
    let inside := fp.fptr ≠ 0 ∧ fp.fptr < ofs
    let start := if inside then (fp.fptr - 1) / csize * csize else 0
    let ofs := ofs - start
    let clust := if inside then fp.currClust else fp.orgClust
    let fp := { fp with fptr := start }
    let c := if clust = 0 then s.createChain vol fs 0 else (clust, s)
    if clust = 0 ∧ c.1 = 1 then (false, fp, c.2)
    else
      let fp := if clust = 0 then { fp with orgClust := c.1 } else fp
      if c.1 = 0 then (true, fp.setSector vol fs ofs, c.2)
      else
        let l := seekLoop vol fs (ofs + 1) c.1 ofs fp c.2
        if l.1 then (true, (l.2.2.1.advance l.2.1).setSector vol fs l.2.1, l.2.2.2) else (false, l.2.2)

end Transfer

variable (vol : ℕ → Volume)

/-- `f_read`, with the bytes read. -/
def fRead (fp : Fil) (s : Disk) (btr : ℕ) : FResult × List UInt8 × Fil × Disk :=
  let v := s.validate fp.fs
  if v.1 ≠ .ok then (v.1, [], fp, v.2)
  else if fp.error then (.rwError, [], fp, v.2)
  else if fp.read = false then (.denied, [], fp, v.2)
  else
    let btr := min btr ((fp.fsize + 2 ^ 32 - fp.fptr) % 2 ^ 32)
    let r := fp.readLoop vol (fp.fs.getD 0) btr btr v.2
    if r.1 then (.ok, r.2) else (.rwError, r.2.1, r.2.2.1.abort, r.2.2.2)

/-- `f_write`, with the number of bytes written. -/
def fWrite (fp : Fil) (s : Disk) (wbuff : List UInt8) : FResult × ℕ × Fil × Disk :=
  let v := s.validate fp.fs
  if v.1 ≠ .ok then (v.1, 0, fp, v.2)
  else if fp.error then (.rwError, 0, fp, v.2)
  else if fp.write = false then (.denied, 0, fp, v.2)
  else if (fp.fsize + wbuff.length) % 2 ^ 32 < fp.fsize then (.ok, 0, fp, v.2)
  else
    let r := fp.writeLoop vol (fp.fs.getD 0) wbuff.length wbuff v.2
    if r.1 then
      let fp := r.2.2.1
      (.ok, r.2.1, { fp with fsize := if fp.fsize < fp.fptr then fp.fptr else fp.fsize, written := true }, r.2.2.2)
    else (.rwError, r.2.1, r.2.2.1.abort, r.2.2.2)

/-- `f_lseek`. -/
def fLseek (fp : Fil) (s : Disk) (ofs : ℕ) : FResult × Fil × Disk :=
  let v := s.validate fp.fs
  if v.1 ≠ .ok then (v.1, fp, v.2)
  else if fp.error then (.rwError, fp, v.2)
  else if fp.fptr = ofs then (.ok, fp, v.2)
  else
    let fs := fp.fs.getD 0
    let m := v.2.moveWindow vol fs 0
    if m.1 = false then (.rwError, fp.abort, m.2)
    else
      let ofs := if fp.fsize < ofs ∧ fp.write = false then fp.fsize else ofs
      let r := if ofs = 0 then (true, { fp with fptr := 0, csect := 1 }, m.2) else fp.seekOn vol fs m.2 ofs
      if r.1 = false then (.rwError, r.2.1.abort, r.2.2)
      else
        let fp := r.2.1
        (.ok, if fp.fsize < fp.fptr then { fp with fsize := fp.fptr, written := true } else fp, r.2.2)

end Fil

end NoDiskEmu.Ff
