import NoDiskEmu.Buffers.Talk
import NoDiskEmu.Eeprom.Ops
import NoDiskEmu.Library.Memory

/-! Reading a file of the EEPROM through a buffer, from `eefs-ops.c`. -/

namespace NoDiskEmu.Eeprom

open Library

/-- A buffer with its handle, and the file system. -/
structure EefsBuffer extends Cursor where
  allocated : Bool
  fh : Handle
  fs : Eefs

namespace EefsBuffer

variable (c : Config)

def free (b : EefsBuffer) : EefsBuffer := { b with allocated := false }

/-- `n` bytes were read into the buffer. -/
def filled (b : EefsBuffer) (bytes : List UInt8) (fh : Handle) (fs : Eefs) : EefsBuffer :=
  { b with
    data := Memory.write b.data 2 bytes.length fun i => bytes.getD i 0
    position := 2
    lastused := (bytes.length + 1) % 256
    sendeoi := bytes.length < 254 ∨ fh.curOffset = fh.size
    fh
    fs }

/-- `eefs_refill_read`. -/
def eefsRefillRead (b : EefsBuffer) : Bool × EefsBuffer :=
  let (res, bytes, fh, fs) := b.fs.eepromfsRead c b.fh 254
  if res ≠ .ok then (true, b.free) else (false, b.filled bytes fh fs)

def opened (b : EefsBuffer) (read : Bool) (fh : Handle) (fs : Eefs) : EefsBuffer :=
  { b with read, fh, fs }

/-- `eefs_open_read` for a name that `repad_filename` has filled up. The result of the first refill is
dropped. -/
def eefsOpenRead (name : Name) (b : EefsBuffer) : EefsBuffer :=
  let (res, fh, fs) := b.fs.eepromfsOpen c name .read
  if res ≠ .ok then b.opened b.read fh fs else ((b.opened true fh fs).eefsRefillRead c).2

/-- The talk loops and the other channels between two refills. -/
def moved (b : EefsBuffer) (position : ℕ) (fs : Eefs) : EefsBuffer := { b with position, fs }

/-- A buffer of a file that is read: the file was found, and refills and the talk loops followed. -/
inductive Opened : EefsBuffer → Prop
  | opened (b : EefsBuffer) (name : Name) (found : (b.fs.eepromfsOpen c name .read).1 = .ok) :
      Opened (b.eefsOpenRead c name)
  | refilled {b b' : EefsBuffer} (h : Opened b) (refill : b.eefsRefillRead c = (false, b')) : Opened b'
  | moved {b : EefsBuffer} (h : Opened b) (position : ℕ) (fs : Eefs) : Opened (b.moved position fs)

end EefsBuffer

variable {c : Config}

theorem advance_curSoffset (s : Eefs) (fh : Handle) : (s.advance c fh).1.curSoffset = fh.curSoffset := by
  rw [Eefs.advance]
  dsimp only
  split <;> rfl

/-- The loop of `eepromfs_read` reads all that was asked for. -/
theorem readLoop_spec {fuel length : ℕ} {s : Eefs} {fh : Handle} (hfuel : length ≤ fuel)
    (hfh : fh.curSoffset < c.sectorSize) :
    (s.readLoop c fuel fh length).1.length = length ∧
      (s.readLoop c fuel fh length).2.1.curSoffset < c.sectorSize := by
  have hss := c.sectorSize_lt
  induction fuel generalizing s fh length with
  | zero =>
    rw [Eefs.readLoop]
    exact ⟨(Nat.le_zero.mp hfuel).symm, hfh⟩
  | succ fuel ih =>
    rw [Eefs.readLoop]
    split
    · next hzero => exact ⟨hzero.symm, hfh⟩
    · next hne =>
      have hmod : min length (c.sectorSize - fh.curSoffset) % 256 =
          min length (c.sectorSize - fh.curSoffset) := Nat.mod_eq_of_lt (by omega)
      have hchunk : (s.readChunk c fh length).length = min length (c.sectorSize - fh.curSoffset) := by
        rw [Eefs.readChunk, List.length_map, List.length_range, hmod]
      have hnext : (fh.curSoffset + (s.readChunk c fh length).length) % c.sectorSize < c.sectorSize :=
        Nat.mod_lt _ c.sectorSize_pos
      have hrest : ∀ r : Handle × Eefs, r.1.curSoffset < c.sectorSize →
          (s.readChunk c fh length ++ (r.2.readLoop c fuel r.1 (length -
            (s.readChunk c fh length).length)).1).length = length ∧
          (r.2.readLoop c fuel r.1 (length - (s.readChunk c fh length).length)).2.1.curSoffset <
            c.sectorSize := by
        intro r hr
        obtain ⟨hlen, hoffset⟩ := ih (s := r.2) (show length - (s.readChunk c fh length).length ≤ fuel by omega) hr
        refine ⟨?_, hoffset⟩
        rw [List.length_append, hlen]
        omega
      apply hrest
      split
      · rw [advance_curSoffset]
        exact hnext
      · exact hnext

namespace EefsBuffer

variable {b b' : EefsBuffer}

theorem eefsRefillRead_ok (hmode : b.fh.filemode = .read) :
    b.eefsRefillRead c =
      (let length := min 254 (b.fh.size - b.fh.curOffset)
      let r := b.fs.readLoop c length b.fh length
      (false, b.filled r.1 r.2.1 r.2.2)) := by
  rw [eefsRefillRead, Eefs.eepromfsRead, if_neg (not_not.mpr hmode)]
  rfl

theorem eefsRefillRead_mode (h : b.eefsRefillRead c = (false, b')) : b.fh.filemode = .read := by
  by_contra hmode
  rw [eefsRefillRead, Eefs.eepromfsRead, if_pos hmode] at h
  cases h

/-- A refill leaves an empty buffer when the file has no more bytes. -/
theorem eefsRefillRead_filled (hfh : b.fh.curSoffset < c.sectorSize)
    (h : b.eefsRefillRead c = (false, b')) :
    b'.fh.curSoffset < c.sectorSize ∧ b'.lastused ≤ 255 ∧
      (b'.position ≤ b'.lastused ↔ b.fh.curOffset < b.fh.size) := by
  have hmode := eefsRefillRead_mode h
  have hspec := readLoop_spec (c := c) (s := b.fs) (le_refl (min 254 (b.fh.size - b.fh.curOffset)))
    hfh
  rw [eefsRefillRead_ok hmode] at h
  dsimp only at h
  generalize b.fs.readLoop c (min 254 (b.fh.size - b.fh.curOffset)) b.fh
    (min 254 (b.fh.size - b.fh.curOffset)) = r at h hspec
  obtain ⟨hlen, hoffset⟩ := hspec
  cases h
  have hlast : (b.filled r.1 r.2.1 r.2.2).lastused = min 254 (b.fh.size - b.fh.curOffset) + 1 := by
    rw [filled, hlen]
    exact Nat.mod_eq_of_lt (by omega)
  refine ⟨hoffset, ?_, ?_⟩
  · rw [hlast]
    omega
  · rw [hlast]
    show 2 ≤ _ ↔ _
    omega

theorem eepromfsOpen_curSoffset {s : Eefs} {name : Name} (h : (s.eepromfsOpen c name .read).1 = .ok) :
    (s.eepromfsOpen c name .read).2.1.curSoffset = 0 ∧
      (s.eepromfsOpen c name .read).2.1.curOffset = 0 ∧
      (s.eepromfsOpen c name .read).2.1.filemode = .read ∧
      (s.eepromfsOpen c name .read).2.1.size = (s.findEntry c name).2.buffer.size := by
  rw [Eefs.eepromfsOpen] at h ⊢
  split at h
  · cases h
  · next hne =>
    rw [if_neg hne]
    exact ⟨rfl, rfl, rfl, rfl⟩

theorem eefsOpenRead_ok {name : Name} (h : (b.fs.eepromfsOpen c name .read).1 = .ok) :
    b.eefsOpenRead c name = ((b.opened true (b.fs.eepromfsOpen c name .read).2.1
      (b.fs.eepromfsOpen c name .read).2.2).eefsRefillRead c).2 := by
  rw [eefsOpenRead]
  dsimp only
  rw [if_neg (not_not.mpr h)]

/-- The handle of an open file stays inside its sector. -/
theorem Opened.curSoffset (h : Opened c b) : b.fh.curSoffset < c.sectorSize := by
  induction h with
  | opened b name found =>
    obtain ⟨hoffset, -, hmode, -⟩ := eepromfsOpen_curSoffset found
    rw [eefsOpenRead_ok found]
    have hok := eefsRefillRead_ok (c := c) (b := b.opened true (b.fs.eepromfsOpen c name .read).2.1
      (b.fs.eepromfsOpen c name .read).2.2) hmode
    have hpos : (b.opened true (b.fs.eepromfsOpen c name .read).2.1
      (b.fs.eepromfsOpen c name .read).2.2).fh.curSoffset < c.sectorSize := by
      rw [show (b.opened true _ _).fh.curSoffset = 0 from hoffset]
      exact c.sectorSize_pos
    rw [hok]
    exact (eefsRefillRead_filled hpos hok).1
  | refilled _ refill ih => exact (eefsRefillRead_filled ih refill).1
  | moved _ _ _ ih => exact ih

/-- A file that is opened fills the buffer unless it is empty. -/
theorem eefsOpenRead_filled {name : Name} (h : (b.fs.eepromfsOpen c name .read).1 = .ok) :
    (b.eefsOpenRead c name).lastused ≤ 255 ∧
      ((b.eefsOpenRead c name).position ≤ (b.eefsOpenRead c name).lastused ↔
        (b.fs.findEntry c name).2.buffer.size ≠ 0) := by
  obtain ⟨hsoffset, hoffset, hmode, hsize⟩ := eepromfsOpen_curSoffset h
  have hok := eefsRefillRead_ok (c := c) (b := b.opened true (b.fs.eepromfsOpen c name .read).2.1
    (b.fs.eepromfsOpen c name .read).2.2) hmode
  have hpos : (b.opened true (b.fs.eepromfsOpen c name .read).2.1
      (b.fs.eepromfsOpen c name .read).2.2).fh.curSoffset < c.sectorSize := by
    rw [show (b.opened true _ _).fh.curSoffset = 0 from hsoffset]
    exact c.sectorSize_pos
  obtain ⟨-, hlast, hiff⟩ := eefsRefillRead_filled hpos hok
  rw [eefsOpenRead_ok h, hok]
  refine ⟨hlast, hiff.trans ?_⟩
  show (b.fs.eepromfsOpen c name .read).2.1.curOffset < (b.fs.eepromfsOpen c name .read).2.1.size ↔ _
  rw [hoffset, hsize]
  exact Nat.pos_iff_ne_zero

end EefsBuffer

end NoDiskEmu.Eeprom
