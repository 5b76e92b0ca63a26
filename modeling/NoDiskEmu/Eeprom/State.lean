import Mathlib.Data.Fintype.Pi
import NoDiskEmu.Eeprom.Entry
import NoDiskEmu.Library.Bitmap
import NoDiskEmu.Library.Memory

/-! The state of `eeprom-fs.c` and its utility functions: reading and writing directory entries, the
two bitmaps, and the searches for a sector, an entry and a name. -/

namespace NoDiskEmu.Eeprom

open Library Library.Bitmap

/-- The `EEPROMFS_` constants of `arch-config.h`, with what the static assertions of `eeprom-fs.c`
and its 8-bit counters ask of them. -/
structure Config where
  offset : ℕ
  size : ℕ
  entries : ℕ
  sectorSize : ℕ
  entries_pos : 0 < entries
  entries_lt : entries < 256
  sectorSize_pos : 0 < sectorSize
  sectorSize_lt : sectorSize < 256
  sectors_pos : 0 < (size - entries * 32) / sectorSize
  sectors_lt : (size - entries * 32) / sectorSize < 256

/-- `avr/arch-config.h`. -/
def Config.avr : Config where
  offset := 512
  size := 3584
  entries := 8
  sectorSize := 64
  entries_pos := by decide
  entries_lt := by decide
  sectorSize_pos := by decide
  sectorSize_lt := by decide
  sectors_pos := by decide
  sectors_lt := by decide

/-- `lpc17xx/arch-config.h`. -/
def Config.lpc17xx : Config where
  offset := 512
  size := 7680
  entries := 16
  sectorSize := 64
  entries_pos := by decide
  entries_lt := by decide
  sectorSize_pos := by decide
  sectorSize_lt := by decide
  sectors_pos := by decide
  sectors_lt := by decide

/-- `SECTOR_COUNT`. -/
def Config.sectorCount (c : Config) : ℕ := (c.size - c.entries * 32) / c.sectorSize

/-- `DATA_OFFSET`. -/
def Config.dataOffset (c : Config) : ℕ := c.offset + c.entries * 32

def Config.entryAddr (c : Config) (i : ℕ) : ℕ := c.offset + 32 * i

/-- The EEPROM, the static variables of `eeprom-fs.c` and the 32 bytes of `EEPROMFS_BUFFER`. The
flags record what the C code cannot return: a failed assertion of `mark_sector`, one of
`eepromfs_read`, and a loop that does not end. -/
structure Eefs where
  mem : ℕ → UInt8
  usedSectors : ℕ → UInt8
  usedEntries : ℕ → UInt8
  freeSectors : ℕ
  buffer : Entry
  markFault : Bool
  readFault : Bool
  hung : Bool

namespace Eefs

variable (c : Config) (s : Eefs)

/-- Directory entry `i` in the EEPROM. -/
def entry (i : ℕ) : Entry := fun k => s.mem (c.entryAddr i + k)

/-- Byte `a` of the data area. -/
def data (a : ℕ) : UInt8 := s.mem (c.dataOffset + a)

def sectorUsed (sector : ℕ) : Bool := getBit s.usedSectors sector

def entryUsed (i : ℕ) : Bool := getBit s.usedEntries i

def setBuffer (buffer : Entry) : Eefs := { s with buffer }

/-- `set_bit(used_entries, i, true)`. -/
def useEntry (i : ℕ) : Eefs := { s with usedEntries := setBit s.usedEntries i true }

/-- The loop at hand does not end. -/
def hang : Eefs := { s with hung := true }

def readEntry (i : ℕ) : Eefs := s.setBuffer (s.entry c i)

/-- The blocks of changed bytes that the loop of `write_entry` finds, with `n` bytes to go and
`start` being `nonmatch_start` while `cur_nonmatching` is set. -/
def changedBlocks (new old : Entry) : ℕ → Option ℕ → List (ℕ × ℕ)
  | 0, none => []
  | 0, some start => [(start, 32 - start)]
  | n + 1, some start =>
    let i := 31 - n
    if new (Fin.ofNat 32 i) = old (Fin.ofNat 32 i) then
      (start, i - start) :: changedBlocks new old n none
    else changedBlocks new old n (some start)
  | n + 1, none =>
    let i := 31 - n
    if new (Fin.ofNat 32 i) ≠ old (Fin.ofNat 32 i) then changedBlocks new old n (some i)
    else changedBlocks new old n none

/-- `eeprom_write_block` of some bytes of the buffer to their place in entry `i`. -/
def writeBlock (i : ℕ) (mem : ℕ → UInt8) (block : ℕ × ℕ) : ℕ → UInt8 :=
  Memory.write mem (c.entryAddr i + block.1) block.2
    fun k => s.buffer (Fin.ofNat 32 (block.1 + k))

def writeEntry (i : ℕ) : Eefs :=
  { s with mem := (changedBlocks s.buffer (s.entry c i) 32 none).foldl (s.writeBlock c i) s.mem }

/-- `assert` notes a fault and goes on, as in a build without `CONFIG_ASSERTIONS`. -/
def markSector (sector : ℕ) (used : Bool) : Eefs :=
  { s with
    usedSectors := setBit s.usedSectors sector used
    freeSectors := if used then (s.freeSectors + 255) % 256 else (s.freeSectors + 1) % 256
    markFault := s.markFault || s.sectorUsed sector == used }

/-- `SECTOR_FREE` if there is no free sector. -/
def nextFreeSector (start : ℕ) : Option ℕ := scanFree s.usedSectors c.sectorCount start 257 start

/-- The entry found, or `0xff`, and the state in which it is marked as used. -/
def nextFreeEntry (start : ℕ) : ℕ × Eefs :=
  match scanFree s.usedEntries c.entries start 257 start with
  | none => (0xff, s.hang)
  | some cur => if cur = 0xff then (0xff, s) else (cur, s.useEntry cur)

/-- The loop of `find_entry` with `n` entries to go. -/
def findEntryFrom (name : Name) : ℕ → Eefs → ℕ × Eefs
  | 0, s => (0xff, s)
  | n + 1, s =>
    let idx := c.entries - (n + 1)
    let s := s.readEntry c idx
    if s.buffer.deleted || s.buffer.isListentry then findEntryFrom name n s
    else if s.buffer.name = name then (idx, s)
    else findEntryFrom name n s

def findEntry (name : Name) : ℕ × Eefs := findEntryFrom c name c.entries s

/-- `mark_sector` for each of some sectors. -/
def markSectors (sectors : List ℕ) (used : Bool) : Eefs :=
  sectors.foldl (fun s sector => s.markSector sector used) s

/-- Entry `i` is in use. -/
def Live (i : ℕ) : Prop := i < c.entries ∧ (s.entry c i).deleted = false

instance (i : ℕ) : Decidable (s.Live c i) := inferInstanceAs (Decidable (_ ∧ _))

/-- Entry `i` is the first one of the file `name`. -/
def IsFile (i : ℕ) (name : Name) : Prop :=
  s.Live c i ∧ (s.entry c i).isListentry = false ∧ (s.entry c i).name = name

instance (i : ℕ) (name : Name) : Decidable (s.IsFile c i name) :=
  inferInstanceAs (Decidable (_ ∧ _ ∧ _))

variable {c s}

@[simp] theorem entry_buffer (buffer : Entry) (i : ℕ) :
    (s.setBuffer buffer).entry c i = s.entry c i := rfl

/-- What the loop of `write_entry` still has to write: the bytes from the start of the current
block on, or those from the current byte on if it is not in a block. -/
def toWrite (n : ℕ) : Option ℕ → ℕ
  | none => 32 - n
  | some start => start

theorem foldl_changedBlocks (i : ℕ) {n : ℕ} (hn : n ≤ 32) (start : Option ℕ) (old : Entry)
    (hstart : ∀ k ∈ start, k ≤ 32 - n) (mem : ℕ → UInt8)
    (hold : ∀ k, toWrite n start ≤ k → k < 32 → mem (c.entryAddr i + k) = old (Fin.ofNat 32 k)) :
    (changedBlocks s.buffer old n start).foldl (s.writeBlock c i) mem =
      s.writeBlock c i mem (toWrite n start, 32 - toWrite n start) := by
  induction n generalizing start mem with
  | zero =>
    cases start with
    | none =>
      symm
      exact Memory.write_same fun k hk => absurd hk (by simp [toWrite])
    | some start => rfl
  | succ n ih =>
    have hi : 32 - (n + 1) = 31 - n := by omega
    cases start with
    | none =>
      rw [changedBlocks]
      simp only [toWrite, hi] at hold ⊢
      split
      · rw [ih (by omega) _ (by simp; omega) _ (by simpa [toWrite] using hold)]
        rfl
      · next heq =>
        rw [ih (by omega) _ (by simp) _ (fun k hk => hold k (by simp [toWrite] at hk; omega))]
        simp only [toWrite]
        -- the byte that is skipped already has its value
        funext o
        by_cases ho : o = c.entryAddr i + (31 - n)
        · subst ho
          rw [writeBlock, writeBlock, Memory.write_outside (by simp; omega), hold _ le_rfl (by omega)]
          have hin := @Memory.write_inside mem (c.entryAddr i + (31 - n)) (32 - (31 - n)) 0
            (fun k => s.buffer (Fin.ofNat 32 (31 - n + k))) (by omega)
          exact (not_not.mp heq).symm.trans hin.symm
        · simp only [writeBlock, Memory.write]
          by_cases hin : c.entryAddr i + (32 - n) ≤ o ∧ o < c.entryAddr i + (32 - n) + (32 - (32 - n))
          · rw [if_pos hin, if_pos (by omega)]
            congr 2
            omega
          · rw [if_neg hin, if_neg (by omega)]
    | some start =>
      have hle : start ≤ 31 - n := by simpa [hi] using hstart
      rw [changedBlocks]
      simp only [toWrite] at hold ⊢
      split
      · next heq =>
        rw [List.foldl_cons, ih (by omega) _ (by simp)]
        · simp only [toWrite]
          funext o
          by_cases ho : o = c.entryAddr i + (31 - n)
          · subst ho
            have hin := @Memory.write_inside mem (c.entryAddr i + start) (32 - start)
              (31 - n - start) (fun k => s.buffer (Fin.ofNat 32 (start + k))) (by omega)
            have haddr : c.entryAddr i + start + (31 - n - start) = c.entryAddr i + (31 - n) := by omega
            have hbyte : start + (31 - n - start) = 31 - n := by omega
            rw [haddr] at hin
            simp only [hbyte] at hin
            rw [writeBlock, Memory.write_outside (by simp; omega), writeBlock,
              Memory.write_outside (by simp; omega), hold _ hle (by omega), writeBlock, hin, heq]
          · simp only [writeBlock, Memory.write]
            by_cases h1 : c.entryAddr i + (32 - n) ≤ o ∧ o < c.entryAddr i + (32 - n) + (32 - (32 - n))
            · rw [if_pos h1, if_pos (by omega)]
              congr 2
              omega
            · rw [if_neg h1]
              by_cases h2 : c.entryAddr i + start ≤ o ∧ o < c.entryAddr i + start + (31 - n - start)
              · rw [if_pos h2, if_pos (by omega)]
              · rw [if_neg h2, if_neg (by omega)]
        · intro k hk hk32
          simp only [toWrite] at hk
          rw [writeBlock, Memory.write_outside (by simp; omega)]
          exact hold k (by omega) hk32
      · rw [ih (by omega) _ (by simp; omega) _ (by simpa [toWrite] using hold)]
        rfl

/-- Writing only the changed bytes of an entry writes the entry. -/
theorem mem_writeEntry (i : ℕ) : (s.writeEntry c i).mem =
    Memory.write s.mem (c.entryAddr i) 32 fun k => s.buffer (Fin.ofNat 32 k) := by
  have h := foldl_changedBlocks (c := c) (s := s) i le_rfl none (s.entry c i) (by simp) s.mem
    (fun k _ hk => by simp [entry, Nat.mod_eq_of_lt hk])
  rw [writeEntry]
  simpa [toWrite, writeBlock] using h

theorem entry_writeEntry (i j : ℕ) :
    (s.writeEntry c i).entry c j = if j = i then s.buffer else s.entry c j := by
  funext k
  have hk := k.isLt
  split
  · next h =>
    rw [h, entry, mem_writeEntry, Memory.write_inside hk]
    simp
  · rw [entry, mem_writeEntry, Memory.write_outside, entry]
    simp only [Config.entryAddr]
    omega

theorem data_writeEntry {i : ℕ} (h : i < c.entries) (a : ℕ) :
    (s.writeEntry c i).data c a = s.data c a := by
  rw [data, mem_writeEntry, Memory.write_outside, data]
  simp only [Config.entryAddr, Config.dataOffset]
  omega

@[simp] theorem buffer_readEntry (i : ℕ) : (s.readEntry c i).buffer = s.entry c i := rfl

/-- A write to the data area. -/
def writeData (c : Config) (s : Eefs) (a n : ℕ) (bytes : ℕ → UInt8) : Eefs :=
  { s with mem := Memory.write s.mem (c.dataOffset + a) n bytes }

theorem entry_writeData {i : ℕ} (h : i < c.entries) (a n : ℕ) (bytes : ℕ → UInt8) :
    (s.writeData c a n bytes).entry c i = s.entry c i := by
  funext k
  have hk := k.isLt
  refine Memory.write_outside (.inl ?_)
  simp only [Config.entryAddr, Config.dataOffset]
  omega

theorem data_writeData_inside {a n o : ℕ} {bytes : ℕ → UInt8} (h : o < n) :
    (s.writeData c a n bytes).data c (a + o) = bytes o := by
  rw [data, writeData, ← Nat.add_assoc]
  exact Memory.write_inside h

theorem data_writeData_outside {a n o : ℕ} {bytes : ℕ → UInt8} (h : o < a ∨ a + n ≤ o) :
    (s.writeData c a n bytes).data c o = s.data c o :=
  Memory.write_outside (by omega)

/-- `r` is what a search of the entries from `lo` on for `name` returns: it only fills the
buffer. -/
def Found (c : Config) (s : Eefs) (name : Name) (lo : ℕ) (r : ℕ × Eefs) : Prop :=
  ∃ buffer, r.2 = s.setBuffer buffer ∧
    (r.1 = 255 ∧ (∀ i, lo ≤ i → ¬s.IsFile c i name) ∨
      s.IsFile c r.1 name ∧ buffer = s.entry c r.1)

theorem found_findEntryFrom (name : Name) {n : ℕ} (hn : n ≤ c.entries) :
    s.Found c name (c.entries - n) (s.findEntryFrom c name n) := by
  induction n generalizing s with
  | zero => exact ⟨s.buffer, rfl, .inl ⟨rfl, fun i hi h => absurd h.1.1 (by omega)⟩⟩
  | succ n ih =>
    -- an entry that is passed is not the first one of the file
    have hpass : ¬s.IsFile c (c.entries - (n + 1)) name →
        s.Found c name (c.entries - (n + 1))
          ((s.readEntry c (c.entries - (n + 1))).findEntryFrom c name n) := by
      intro hnot
      obtain ⟨buffer, hs, hres⟩ := ih (s := s.readEntry c (c.entries - (n + 1))) (by omega)
      refine ⟨buffer, hs, hres.imp (fun ⟨h255, hnone⟩ => ⟨h255, fun i hi => ?_⟩) id⟩
      by_cases heq : i = c.entries - (n + 1)
      · rwa [heq]
      · exact hnone i (by omega)
    have hlt : c.entries - (n + 1) < c.entries := by omega
    rw [findEntryFrom]
    split
    · next hskip =>
      refine hpass fun h => ?_
      simp [h.1.2, h.2.1] at hskip
    · next hkeep =>
      simp only [Bool.or_eq_true, not_or, Bool.not_eq_true] at hkeep
      split
      · next hname => exact ⟨_, rfl, .inr ⟨⟨⟨hlt, hkeep.1⟩, hkeep.2, hname⟩, rfl⟩⟩
      · next hname => exact hpass fun h => hname h.2.2

theorem findEntry_cases (c : Config) (s : Eefs) (name : Name) :
    ∃ buffer, (s.findEntry c name).2 = s.setBuffer buffer ∧
      ((s.findEntry c name).1 = 255 ∧ (∀ i, ¬s.IsFile c i name) ∨
        s.IsFile c (s.findEntry c name).1 name ∧ buffer = s.entry c (s.findEntry c name).1) := by
  obtain ⟨buffer, hs, hres⟩ := found_findEntryFrom (c := c) (s := s) name le_rfl
  exact ⟨buffer, hs, hres.imp (fun ⟨h255, hnone⟩ => ⟨h255, fun i => hnone i (by omega)⟩) id⟩

/-- The entry that `next_free_entry` takes was free; it finds none only if none is free. -/
theorem nextFreeEntry_cases (c : Config) (s : Eefs) {start : ℕ} (h : start < c.entries) :
    s.nextFreeEntry c start = (255, s) ∧ (∀ i < c.entries, s.entryUsed i = true) ∨
      ∃ i < c.entries, s.entryUsed i = false ∧
        s.nextFreeEntry c start = (i, s.useEntry i) := by
  obtain ⟨r, hscan, ⟨hr, hfree⟩ | ⟨rfl, hfull⟩⟩ := scanFree_cases s.usedEntries c.entries_lt h
  · have hlt := c.entries_lt
    refine .inr ⟨r, hr, hfree, ?_⟩
    simp only [nextFreeEntry, hscan]
    rw [if_neg (by omega)]
  · refine .inl ⟨?_, hfull⟩
    simp [nextFreeEntry, hscan]

theorem nextFreeSector_cases (c : Config) (s : Eefs) {start : ℕ} (h : start < c.sectorCount) :
    s.nextFreeSector c start = some 255 ∧ (∀ i < c.sectorCount, s.sectorUsed i = true) ∨
      ∃ i < c.sectorCount, s.sectorUsed i = false ∧ s.nextFreeSector c start = some i := by
  obtain ⟨r, hscan, ⟨hr, hfree⟩ | ⟨rfl, hfull⟩⟩ := scanFree_cases s.usedSectors c.sectors_lt h
  · exact .inr ⟨r, hr, hfree, hscan⟩
  · exact .inl ⟨hscan, hfull⟩

end Eefs

end NoDiskEmu.Eeprom
