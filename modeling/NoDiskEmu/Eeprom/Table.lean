import NoDiskEmu.Eeprom.Ops

/-! The directory entries and the two bitmaps as one value, and what the functions of
`eeprom-fs.c` do to it. -/

namespace NoDiskEmu.Eeprom

open Library Library.Bitmap

/-- The directory and the bits of `used_entries` and `used_sectors`. Past the last entry the
directory counts as erased. -/
@[ext] structure Table where
  dir : ℕ → Entry
  usedEntry : ℕ → Bool
  usedSector : ℕ → Bool

namespace Table

def Live (t : Table) (i : ℕ) : Prop := (t.dir i).deleted = false

def set (t : Table) (i : ℕ) (e : Entry) : Table := { t with dir := Function.update t.dir i e }

def take (t : Table) (i : ℕ) : Table :=
  { t with usedEntry := Function.update t.usedEntry i true }

def mark (t : Table) (sector : ℕ) (used : Bool) : Table :=
  { t with usedSector := Function.update t.usedSector sector used }

/-- `mark` for each of some sectors. -/
def markAll (t : Table) (sectors : List ℕ) (used : Bool) : Table :=
  { t with usedSector := fun x => if x ∈ sectors then used else t.usedSector x }

/-- What `eepromfs_delete` does to one entry. -/
def erase (t : Table) (i : ℕ) : Table := (t.markAll (t.dir i).leading false).set i Entry.erased

variable {t : Table} {i j sector : ℕ} {e : Entry} {used : Bool}

@[simp] theorem dir_set_self : (t.set i e).dir i = e := Function.update_self ..

theorem dir_set_ne (h : j ≠ i) : (t.set i e).dir j = t.dir j := Function.update_of_ne h ..

@[simp] theorem usedEntry_set : (t.set i e).usedEntry = t.usedEntry := rfl

@[simp] theorem usedSector_set : (t.set i e).usedSector = t.usedSector := rfl

@[simp] theorem dir_take : (t.take i).dir = t.dir := rfl

@[simp] theorem usedSector_take : (t.take i).usedSector = t.usedSector := rfl

@[simp] theorem usedEntry_take_self : (t.take i).usedEntry i = true := Function.update_self ..

theorem usedEntry_take_ne (h : j ≠ i) : (t.take i).usedEntry j = t.usedEntry j :=
  Function.update_of_ne h ..

@[simp] theorem dir_mark : (t.mark sector used).dir = t.dir := rfl

@[simp] theorem usedEntry_mark : (t.mark sector used).usedEntry = t.usedEntry := rfl

@[simp] theorem usedSector_mark_self : (t.mark sector used).usedSector sector = used :=
  Function.update_self ..

theorem usedSector_mark_ne (h : j ≠ sector) :
    (t.mark sector used).usedSector j = t.usedSector j :=
  Function.update_of_ne h ..

end Table

namespace Eefs

variable (c : Config) (s : Eefs)

def table : Table where
  dir i := if i < c.entries then s.entry c i else Entry.erased
  usedEntry := s.entryUsed
  usedSector := s.sectorUsed

variable {c s}

theorem dir_table {i : ℕ} (h : i < c.entries) : (s.table c).dir i = s.entry c i := if_pos h

theorem live_table {i : ℕ} : (s.table c).Live i ↔ s.Live c i := by
  simp only [Table.Live, Live, table]
  by_cases h : i < c.entries
  · simp [h]
  · simp [h]

theorem isFile_table {i : ℕ} {name : Name} : s.IsFile c i name ↔
    (s.table c).Live i ∧ ((s.table c).dir i).isListentry = false ∧
      ((s.table c).dir i).name = name := by
  rw [IsFile, ← live_table]
  refine and_congr_right fun h => ?_
  rw [dir_table (live_table.mp h).1]

theorem lt_of_live {i : ℕ} (h : (s.table c).Live i) : i < c.entries := (live_table.mp h).1

theorem entryUsed_table (i : ℕ) : s.entryUsed i = (s.table c).usedEntry i := rfl

theorem sectorUsed_table (x : ℕ) : s.sectorUsed x = (s.table c).usedSector x := rfl

@[simp] theorem table_buffer (buffer : Entry) : (s.setBuffer buffer).table c = s.table c := rfl

@[simp] theorem table_readEntry (i : ℕ) : (s.readEntry c i).table c = s.table c := rfl

theorem table_writeEntry {i : ℕ} (h : i < c.entries) :
    (s.writeEntry c i).table c = (s.table c).set i s.buffer := by
  refine Table.ext (funext fun j => ?_) rfl rfl
  by_cases heq : j = i
  · subst heq
    rw [dir_table h, entry_writeEntry, if_pos rfl, Table.dir_set_self]
  · rw [Table.dir_set_ne heq]
    simp only [table]
    rw [entry_writeEntry, if_neg heq]

theorem table_markSector (sector : ℕ) (used : Bool) :
    (s.markSector sector used).table c = (s.table c).mark sector used := by
  refine Table.ext rfl rfl (funext fun x => ?_)
  by_cases heq : x = sector
  · subst heq
    rw [Table.usedSector_mark_self]
    exact getBit_setBit_self
  · rw [Table.usedSector_mark_ne heq]
    exact getBit_setBit_ne heq

theorem table_useEntry (i : ℕ) : (s.useEntry i).table c = (s.table c).take i := by
  refine Table.ext rfl (funext fun x => ?_) rfl
  by_cases heq : x = i
  · subst heq
    rw [Table.usedEntry_take_self]
    exact getBit_setBit_self
  · rw [Table.usedEntry_take_ne heq]
    exact getBit_setBit_ne heq

@[simp] theorem table_writeData (a n : ℕ) (bytes : ℕ → UInt8) :
    (s.writeData c a n bytes).table c = s.table c := by
  refine Table.ext (funext fun j => ?_) rfl rfl
  simp only [table]
  split
  · next h => exact entry_writeData h a n bytes
  · rfl

/-- `s'` has the data area of `s`, and no fault of `mark_sector`, of a read or of a loop came up. -/
structure Quiet (c : Config) (s s' : Eefs) : Prop where
  data : s'.data c = s.data c
  markFault : s'.markFault = s.markFault
  readFault : s'.readFault = s.readFault
  hung : s'.hung = s.hung

theorem Quiet.refl (s : Eefs) : Quiet c s s := ⟨rfl, rfl, rfl, rfl⟩

theorem Quiet.trans {s₁ s₂ s₃ : Eefs} (h : Quiet c s₁ s₂) (h' : Quiet c s₂ s₃) : Quiet c s₁ s₃ :=
  ⟨h'.data.trans h.data, h'.markFault.trans h.markFault, h'.readFault.trans h.readFault,
    h'.hung.trans h.hung⟩

theorem quiet_writeEntry {i : ℕ} (h : i < c.entries) : Quiet c s (s.writeEntry c i) :=
  ⟨funext (data_writeEntry h), rfl, rfl, rfl⟩

theorem quiet_buffer (buffer : Entry) : Quiet c s (s.setBuffer buffer) := ⟨rfl, rfl, rfl, rfl⟩

theorem quiet_markSector {sector : ℕ} {used : Bool} (h : s.sectorUsed sector = !used) :
    Quiet c s (s.markSector sector used) := by
  refine ⟨rfl, ?_, rfl, rfl⟩
  rw [markSector, h]
  cases used <;> simp

/-- What `eepromfs_open` does for a new file. -/
inductive Opened (c : Config) (s : Eefs) (name : Name) : Status × Handle × Eefs → Prop
  | fileExists {i : ℕ} {buffer : Entry} (hfile : s.IsFile c i name) :
    Opened c s name (.fileExists, Handle.zero, s.setBuffer buffer)
  | dirFull {buffer : Entry} (hfull : ∀ i < c.entries, s.entryUsed i = true) :
    Opened c s name (.dirFull, { Handle.zero with entry := 255 }, s.setBuffer buffer)
  | created {i : ℕ} {s' : Eefs} (hnew : ∀ i, ¬s.IsFile c i name) (hi : i < c.entries)
      (hfree : s.entryUsed i = false)
      (htable : s'.table c = ((s.table c).take i).set i (Entry.newName name))
      (hquiet : Quiet c s s') (hcount : s'.freeSectors = s.freeSectors) :
    Opened c s name (.ok,
      { Handle.zero with entry := i, curEntry := i, curSindex := 255, filemode := .write }, s')

theorem opened_write (c : Config) (s : Eefs) (name : Name) :
    Opened c s name (s.eepromfsOpen c name .write) := by
  obtain ⟨buffer, hs, ⟨h255, hnew⟩ | ⟨hfile, -⟩⟩ := findEntry_cases c s name
  · simp only [eepromfsOpen, h255, hs, ne_eq, not_true_eq_false, if_false]
    rcases nextFreeEntry_cases c (s.setBuffer buffer) c.entries_pos with ⟨heq, hfull⟩ | ⟨i, hi, hfree, heq⟩
    · simp only [openWrite, heq]
      exact .dirFull hfull
    · have hlt := c.entries_lt
      simp only [openWrite, heq]
      rw [if_neg (by omega)]
      refine .created hnew hi hfree ?_ ⟨funext (data_writeEntry hi), rfl, rfl, rfl⟩ rfl
      rw [table_writeEntry hi, table_buffer, table_useEntry]
      rfl
  · have hlt := hfile.1.1
    have hent := c.entries_lt
    simp only [eepromfsOpen, hs]
    rw [if_pos (by omega)]
    exact .fileExists hfile

/-- What `eepromfs_write` does when it needs another sector. -/
inductive Added (c : Config) (s : Eefs) (fh : Handle) : Status × Handle × Eefs → Prop
  | hung (hnone : s.nextFreeSector c fh.curSector = none) :
    Added c s fh (.diskFull, fh, s.hang)
  | diskFull (hfull : s.nextFreeSector c fh.curSector = some 255) : Added c s fh (.diskFull, fh, s)
  | dirFull {sector : ℕ} (hsome : s.nextFreeSector c fh.curSector = some sector)
      (hsector : sector ≠ 255) (hfull : ∀ i < c.entries, s.entryUsed i = true)
      (hle : ((s.table c).dir fh.curEntry).maxSectors ≤ (fh.curSindex + 1) % 256) :
    Added c s fh (.dirFull,
      { fh with curSector := sector, curSindex := (fh.curSindex + 1) % 256 },
      s.readEntry c fh.curEntry)
  | recorded {sector : ℕ} {s' : Eefs} (hsome : s.nextFreeSector c fh.curSector = some sector)
      (hsector : sector ≠ 255)
      (hlt : (fh.curSindex + 1) % 256 < ((s.table c).dir fh.curEntry).maxSectors)
      (htable : s'.table c = ((s.table c).mark sector true).set fh.curEntry
        (((s.table c).dir fh.curEntry).setSector ((fh.curSindex + 1) % 256) sector))
      (hquiet : Quiet c s s') (hcount : s'.freeSectors = (s.freeSectors + 255) % 256) :
    Added c s fh
      (.ok, { fh with curSector := sector, curSindex := (fh.curSindex + 1) % 256 }, s')
  | extended {sector n : ℕ} {s' : Eefs} (hsome : s.nextFreeSector c fh.curSector = some sector)
      (hsector : sector ≠ 255) (hn : n < c.entries) (hfree : s.entryUsed n = false)
      (hle : ((s.table c).dir fh.curEntry).maxSectors ≤ (fh.curSindex + 1) % 256)
      (htable : s'.table c = ((((s.table c).take n).set fh.curEntry
        (((s.table c).dir fh.curEntry).setNextentry n)).mark sector true).set n
          (Entry.newList.setSector 0 sector))
      (hquiet : Quiet c s s') (hcount : s'.freeSectors = (s.freeSectors + 255) % 256) :
    Added c s fh (.ok, { fh with curSector := sector, curEntry := n, curSindex := 0 }, s')

theorem table_recordSector {fh : Handle} {sector : ℕ} (h : fh.curEntry < c.entries) :
    (s.recordSector c fh sector).table c =
      ((s.table c).mark sector true).set fh.curEntry (s.buffer.setSector fh.curSindex sector) := by
  rw [recordSector, table_writeEntry h, table_buffer, table_markSector]
  rfl

theorem quiet_recordSector {fh : Handle} {sector : ℕ} (h : fh.curEntry < c.entries)
    (hfree : s.sectorUsed sector = false) : Quiet c s (s.recordSector c fh sector) :=
  (quiet_markSector hfree).trans ((quiet_buffer _).trans (quiet_writeEntry h))

theorem addEntry_cases (c : Config) (s : Eefs) {fh : Handle} (h : fh.curEntry < c.entries) :
    s.addEntry c fh = (.dirFull, fh, s) ∧ (∀ i < c.entries, s.entryUsed i = true) ∨
      ∃ n < c.entries, s.entryUsed n = false ∧ ∃ s', s'.buffer = Entry.newList ∧ Quiet c s s' ∧
        s'.table c = ((s.table c).take n).set fh.curEntry (s.buffer.setNextentry n) ∧
        s'.freeSectors = s.freeSectors ∧
        s.addEntry c fh = (.ok, { fh with curEntry := n, curSindex := 0 }, s') := by
  rcases nextFreeEntry_cases c s h with ⟨heq, hfull⟩ | ⟨n, hn, hfree, heq⟩
  · exact .inl ⟨by simp [addEntry, heq], hfull⟩
  · have hlt := c.entries_lt
    refine .inr ⟨n, hn, hfree, (((s.useEntry n).setBuffer (s.buffer.setNextentry n)).writeEntry c
      fh.curEntry).setBuffer Entry.newList, rfl, ?_, ?_, ?_, ?_⟩
    · exact ⟨funext (data_writeEntry h), rfl, rfl, rfl⟩
    · rw [table_buffer, table_writeEntry h, table_buffer, table_useEntry]
      rfl
    · rfl
    · simp only [addEntry, heq]
      rw [if_neg (show ¬n = 255 by omega)]
      rfl

theorem added_addSector (c : Config) (s : Eefs) {fh : Handle} (h : fh.curEntry < c.entries) :
    Added c s fh (s.addSector c fh) := by
  unfold addSector
  split
  · next hnone => exact .hung hnone
  · next sector hsome =>
    by_cases hsector : sector = 255
    · rw [if_pos hsector]
      exact .diskFull (hsector ▸ hsome)
    · rw [if_neg hsector]
      have hbit : s.sectorUsed sector = false := getBit_of_scanFree hsome hsector
      dsimp only
      by_cases hle : ((s.table c).dir fh.curEntry).maxSectors ≤ (fh.curSindex + 1) % 256
      · have hle' : (s.readEntry c fh.curEntry).buffer.maxSectors ≤ (fh.curSindex + 1) % 256 := by
          rwa [buffer_readEntry, ← dir_table h]
        rw [if_pos hle']
        have hcases := addEntry_cases c (s.readEntry c fh.curEntry) (show
          ({ fh with curSector := sector, curSindex := (fh.curSindex + 1) % 256 } : Handle).curEntry <
            c.entries from h)
        rcases hcases with
          ⟨heq, hfull⟩ | ⟨n, hn, hfree, s', hbuffer, hquiet, htable, hcount, heq⟩
        · rw [heq, if_pos (by simp)]
          exact .dirFull hsome hsector hfull hle
        · rw [heq, if_neg (by simp)]
          refine .extended hsome hsector hn hfree hle ?_ ?_ ?_
          · rw [table_recordSector (by exact hn), htable, hbuffer, dir_table h]
            rfl
          · refine ((quiet_buffer _).trans hquiet).trans ?_
            apply quiet_recordSector
            · exact hn
            have hsame : s'.sectorUsed sector = (s'.table c).usedSector sector := rfl
            rw [hsame, htable]
            exact hbit
          · rw [← show s'.freeSectors = s.freeSectors from hcount]
            rfl
      · have hgt : ¬(s.readEntry c fh.curEntry).buffer.maxSectors ≤ (fh.curSindex + 1) % 256 := by
          rwa [buffer_readEntry, ← dir_table h]
        rw [if_neg hgt, if_neg (by simp)]
        refine .recorded hsome hsector (by omega) ?_ ?_ rfl
        · rw [table_recordSector (by exact h), dir_table h]
          rfl
        · exact (quiet_buffer _).trans (quiet_recordSector h hbit)

/-- The rule for the loop of `eepromfs_write`: `I` holds at the head of the loop, `J` when a sector
is at hand, and `F` when the loop ends with an error. -/
theorem writeLoop_rule {I J : Eefs → Handle → List UInt8 → ℕ → Prop}
    {F : Status → ℕ → Handle → Eefs → Prop}
    (hadd : ∀ s fh data w, I s fh data w → data ≠ [] → fh.curSoffset = 0 →
      (s.addSector c fh).1 = .ok ∧ J (s.addSector c fh).2.2 (s.addSector c fh).2.1 data w ∨
        (s.addSector c fh).1 ≠ .ok ∧
          F (s.addSector c fh).1 w (s.addSector c fh).2.1 (s.addSector c fh).2.2)
    (hmid : ∀ s fh data w, I s fh data w → fh.curSoffset ≠ 0 → J s fh data w)
    (hchunk : ∀ s fh data w, J s fh data w → data ≠ [] →
      0 < (s.writeChunk c fh data).1 ∧
        I (s.writeChunk c fh data).2.2 (s.writeChunk c fh data).2.1
          (data.drop (s.writeChunk c fh data).1) ((w + (s.writeChunk c fh data).1) % 65536))
    {fuel : ℕ} {s : Eefs} {fh : Handle} {data : List UInt8} {w : ℕ} (hI : I s fh data w)
    (hfuel : data.length ≤ fuel) :
    let r := writeLoop c fuel s fh data w
    r.1 = .ok ∧ I r.2.2.2 r.2.2.1 [] r.2.1 ∨ r.1 ≠ .ok ∧ F r.1 r.2.1 r.2.2.1 r.2.2.2 := by
  induction fuel generalizing s fh data w with
  | zero =>
    obtain rfl : data = [] := List.length_eq_zero_iff.mp (by omega)
    exact .inl ⟨rfl, hI⟩
  | succ fuel ih =>
    rw [writeLoop]
    by_cases hdata : data = []
    · rw [if_pos hdata]
      exact .inl ⟨rfl, hdata ▸ hI⟩
    · rw [if_neg hdata]
      -- the rest of the round, once the sector is at hand
      have hrest : ∀ s fh, J s fh data w →
          let r := writeLoop c fuel (s.writeChunk c fh data).2.2 (s.writeChunk c fh data).2.1
            (data.drop (s.writeChunk c fh data).1) ((w + (s.writeChunk c fh data).1) % 65536)
          r.1 = .ok ∧ I r.2.2.2 r.2.2.1 [] r.2.1 ∨ r.1 ≠ .ok ∧ F r.1 r.2.1 r.2.2.1 r.2.2.2 := by
        intro s fh hJ
        obtain ⟨hpos, hI'⟩ := hchunk s fh data w hJ hdata
        refine ih hI' ?_
        rw [List.length_drop]
        omega
      by_cases hoff : fh.curSoffset = 0
      · simp only [if_pos hoff]
        rcases hadd s fh data w hI hdata hoff with ⟨hok, hJ⟩ | ⟨hok, hF⟩
        · rw [if_neg (by simpa using hok)]
          exact hrest _ _ hJ
        · rw [if_pos hok]
          exact .inr ⟨hok, hF⟩
      · simp only [if_neg hoff]
        rw [if_neg (by simp)]
        exact hrest _ _ (hmid s fh data w hI hoff)

/-- A read changes nothing but the buffer and the record of its own assertions. -/
theorem same_readLoop (fuel : ℕ) (s : Eefs) (fh : Handle) (length : ℕ) :
    let r := readLoop c fuel s fh length
    r.2.2.table c = s.table c ∧ r.2.1.filemode = fh.filemode ∧ r.2.2.markFault = s.markFault ∧
      r.2.2.hung = s.hung ∧ r.2.2.freeSectors = s.freeSectors := by
  have hadvance : ∀ (s : Eefs) fh, (s.advance c fh).2.table c = s.table c ∧
      (s.advance c fh).1.filemode = fh.filemode ∧ (s.advance c fh).2.markFault = s.markFault ∧
      (s.advance c fh).2.hung = s.hung ∧ (s.advance c fh).2.freeSectors = s.freeSectors := by
    intro s fh
    simp only [advance]
    split <;> exact ⟨rfl, rfl, rfl, rfl, rfl⟩
  induction fuel generalizing s fh length with
  | zero => exact ⟨rfl, rfl, rfl, rfl, rfl⟩
  | succ fuel ih =>
    rw [readLoop]
    split
    · exact ⟨rfl, rfl, rfl, rfl, rfl⟩
    · dsimp only
      split
      · obtain ⟨h1, h2, h3, h4, h5⟩ := hadvance s { fh with
          curOffset := (fh.curOffset + (s.readChunk c fh length).length) % 65536
          curSoffset := (fh.curSoffset + (s.readChunk c fh length).length) % c.sectorSize }
        obtain ⟨k1, k2, k3, k4, k5⟩ := ih (s.advance c _).2 (s.advance c _).1
          (length - (s.readChunk c fh length).length)
        exact ⟨k1.trans h1, k2.trans h2, k3.trans h3, k4.trans h4, k5.trans h5⟩
      · exact ih ..

/-- The free-sector counter after `k` sectors were marked. -/
def count (free k : ℕ) (used : Bool) : ℕ := if used then (free + 255 * k) % 256 else (free + k) % 256

theorem markSectors_cons (sector : ℕ) (sectors : List ℕ) (used : Bool) :
    s.markSectors (sector :: sectors) used = (s.markSector sector used).markSectors sectors used :=
  rfl

theorem table_markSectors (sectors : List ℕ) (used : Bool) :
    (s.markSectors sectors used).table c = (s.table c).markAll sectors used := by
  induction sectors generalizing s with
  | nil => rfl
  | cons sector sectors ih =>
    rw [markSectors_cons, ih, table_markSector]
    refine Table.ext rfl rfl (funext fun x => ?_)
    by_cases hx : x = sector
    · simp [Table.markAll, hx]
    · simp [Table.markAll, Table.usedSector_mark_ne hx, hx]

theorem mem_markSectors (sectors : List ℕ) (used : Bool) :
    (s.markSectors sectors used).mem = s.mem ∧ (s.markSectors sectors used).buffer = s.buffer := by
  induction sectors generalizing s with
  | nil => exact ⟨rfl, rfl⟩
  | cons sector sectors ih => exact ih

/-- Marking sectors that all flip their state. -/
theorem quiet_markSectors {sectors : List ℕ} {used : Bool} (hnodup : sectors.Nodup)
    (hflip : ∀ x ∈ sectors, s.sectorUsed x = !used) : Quiet c s (s.markSectors sectors used) := by
  induction sectors generalizing s with
  | nil => exact Quiet.refl s
  | cons sector sectors ih =>
    rw [List.nodup_cons] at hnodup
    refine (quiet_markSector (hflip sector (by simp))).trans (ih hnodup.2 fun x hx => ?_)
    have hne : x ≠ sector := fun heq => hnodup.1 (heq ▸ hx)
    exact (getBit_setBit_ne hne).trans (hflip x (by simp [hx]))

theorem freeSectors_markSectors {sectors : List ℕ} {used : Bool} (hlt : s.freeSectors < 256) :
    (s.markSectors sectors used).freeSectors = count s.freeSectors sectors.length used := by
  induction sectors generalizing s with
  | nil => cases used <;> simp [markSectors, count, Nat.mod_eq_of_lt hlt]
  | cons sector sectors ih =>
    rw [markSectors_cons, ih]
    · cases used <;> simp only [markSector, count, List.length_cons] <;> simp <;> omega
    · cases used <;> simp only [markSector] <;> simp <;> omega

/-- One round of the loop of `eepromfs_delete`. -/
theorem deleteChain_succ {fuel i : ℕ} (hi : i < c.entries) (hbuffer : s.buffer = s.entry c i)
    (hnodup : (s.entry c i).leading.Nodup)
    (hused : ∀ x ∈ (s.entry c i).leading, s.sectorUsed x = true) (hlt : s.freeSectors < 256) :
    ∃ s', Quiet c s s' ∧ s'.table c = (s.table c).erase i ∧
      s'.freeSectors = count s.freeSectors (s.entry c i).leading.length false ∧
      s.deleteChain c (fuel + 1) i =
        if (s.entry c i).nextentry = 255 then s'
        else (s'.readEntry c (s.entry c i).nextentry).deleteChain c fuel (s.entry c i).nextentry := by
  refine ⟨((s.markSectors s.buffer.leading false).setBuffer Entry.erased).writeEntry c i,
    ?_, ?_, ?_, ?_⟩
  · rw [hbuffer]
    exact (quiet_markSectors hnodup hused).trans ((quiet_buffer _).trans (quiet_writeEntry hi))
  · rw [table_writeEntry hi, table_buffer, table_markSectors, hbuffer, Table.erase, dir_table hi]
    rfl
  · rw [← hbuffer]
    exact freeSectors_markSectors hlt
  · rw [← hbuffer]
    rfl

/-- What `eepromfs_rename` does. -/
inductive Renamed (c : Config) (s : Eefs) (oldname newname : Name) : Status × Eefs → Prop
  | refused {status : Status} {buffer : Entry}
      (hstatus : status = .fileExists ∨ status = .fileNotFound) :
    Renamed c s oldname newname (status, s.setBuffer buffer)
  | renamed {i : ℕ} {s' : Eefs} (hnew : ∀ i, ¬s.IsFile c i newname) (hold : s.IsFile c i oldname)
      (htable : s'.table c = (s.table c).set i (((s.table c).dir i).setName newname))
      (hquiet : Quiet c s s') (hcount : s'.freeSectors = s.freeSectors) :
    Renamed c s oldname newname (.ok, s')

theorem renamed_rename (c : Config) (s : Eefs) (oldname newname : Name) :
    Renamed c s oldname newname (s.eepromfsRename c oldname newname) := by
  have hent := c.entries_lt
  obtain ⟨b, hs, hres⟩ := findEntry_cases c s newname
  obtain ⟨b', hs', hres'⟩ := findEntry_cases c (s.setBuffer b) oldname
  simp only [eepromfsRename, hs]
  rcases hres with ⟨h255, hnew⟩ | ⟨hfile, -⟩
  · rw [if_neg (by simpa using h255), hs']
    rcases hres' with ⟨h255', -⟩ | ⟨hfile, hbuffer⟩
    · rw [if_pos h255']
      exact .refused (by simp)
    · have hlt := hfile.1.1
      rw [if_neg (by omega)]
      refine .renamed hnew hfile ?_ ⟨funext (data_writeEntry hlt), rfl, rfl, rfl⟩ rfl
      rw [table_writeEntry hlt, table_buffer, dir_table hlt]
      rw [show ((s.setBuffer b).setBuffer b').buffer = b' from rfl, hbuffer]
      rfl
  · have hlt := hfile.1.1
    rw [if_pos (by omega)]
    exact .refused (by simp)

/-- What `eepromfs_close` does to a handle open for writing. -/
theorem close_write {fh : Handle} (h : fh.filemode ≠ .read) (hlt : fh.entry < c.entries) :
    ∃ s', s.eepromfsClose c fh = ({ fh with filemode := .read }, s') ∧ Quiet c s s' ∧
      s'.table c = (s.table c).set fh.entry (((s.table c).dir fh.entry).setSize fh.size) ∧
      s'.freeSectors = s.freeSectors := by
  refine ⟨_, rfl, ?_⟩
  rw [if_pos h]
  refine ⟨(quiet_buffer _).trans ((quiet_buffer _).trans (quiet_writeEntry hlt)), ?_, rfl⟩
  rw [table_writeEntry hlt, dir_table hlt]
  rfl

theorem close_read {fh : Handle} (h : fh.filemode = .read) :
    s.eepromfsClose c fh = ({ fh with filemode := .read }, s) := by
  simp [eepromfsClose, h]

theorem getBit_clear {bitmap : ℕ → UInt8} {n i : ℕ} (h : i < n) :
    getBit (Memory.write bitmap 0 ((n + 7) / 8) fun _ => 0) i = false := by
  have hbyte := @Memory.write_inside bitmap 0 ((n + 7) / 8) (i / 8) (fun _ => 0) (by omega)
  rw [Nat.zero_add] at hbyte
  simp [getBit, hbyte, Bits.test]

/-- The variables that `eepromfs_init` sets before its loop. -/
def cleared (c : Config) (s : Eefs) : Eefs :=
  { s with
    freeSectors := c.sectorCount
    usedSectors := Memory.write s.usedSectors 0 ((c.sectorCount + 7) / 8) fun _ => 0
    usedEntries := Memory.write s.usedEntries 0 ((c.entries + 7) / 8) fun _ => 0 }

theorem eepromfsInit_eq (c : Config) (s : Eefs) :
    s.eepromfsInit c = (List.range c.entries).foldl (initEntry c) (s.cleared c) := rfl

/-- The loop of `eepromfs_init` after `n` rounds. -/
theorem foldl_initEntry (c : Config) (s : Eefs) (n : ℕ) (hn : n ≤ c.entries) :
    let s' := (List.range n).foldl (initEntry c) s
    s'.mem = s.mem ∧
      (∀ i, s'.entryUsed i = (s.entryUsed i || decide (i < n ∧ s.Live c i))) ∧
      ∀ x, s'.sectorUsed x = true ↔
        s.sectorUsed x = true ∨ ∃ i < n, s.Live c i ∧ x ∈ (s.entry c i).listed := by
  induction n with
  | zero => simp
  | succ n ih =>
    obtain ⟨hmem, hentries, hsectors⟩ := ih (by omega)
    rw [List.range_succ, List.foldl_append, List.foldl_cons, List.foldl_nil]
    generalize (List.range n).foldl (initEntry c) s = r at hmem hentries hsectors ⊢
    have hentry : r.entry c n = s.entry c n := by
      funext k
      rw [entry, hmem, entry]
    have hlive : s.Live c n ↔ (s.entry c n).deleted = false := ⟨(·.2), fun h => ⟨by omega, h⟩⟩
    simp only [initEntry, buffer_readEntry, hentry]
    cases hdel : (s.entry c n).deleted
    · rw [if_neg (by simp)]
      obtain ⟨hmem', -⟩ := mem_markSectors (s := (r.readEntry c n).useEntry n)
        (s.entry c n).listed true
      refine ⟨hmem'.trans hmem, fun i => ?_, fun x => ?_⟩
      · have hused : ∀ i, (((r.readEntry c n).useEntry n).markSectors
            (s.entry c n).listed true).entryUsed i = ((r.table c).take n).usedEntry i := by
          intro i
          rw [entryUsed_table (c := c), table_markSectors, ← table_useEntry]
          rfl
        rw [hused]
        by_cases hi : i = n
        · subst hi
          simp [hlive, hdel]
        · rw [Table.usedEntry_take_ne hi]
          refine (hentries i).trans ?_
          congr 2
          exact propext ⟨fun h => ⟨by omega, h.2⟩, fun h => ⟨by omega, h.2⟩⟩
      · rw [sectorUsed_table (c := c), table_markSectors]
        simp only [Table.markAll]
        by_cases hx : x ∈ (s.entry c n).listed
        · simp only [hx, if_true, true_iff]
          exact .inr ⟨n, by omega, hlive.mpr hdel, hx⟩
        · rw [if_neg hx]
          refine (hsectors x).trans (or_congr_right ?_)
          constructor
          · rintro ⟨i, hi, h⟩
            exact ⟨i, by omega, h⟩
          · rintro ⟨i, hi, hl, hmemx⟩
            refine ⟨i, ?_, hl, hmemx⟩
            by_contra hge
            have heq : i = n := by omega
            exact hx (heq ▸ hmemx)
    · rw [if_pos rfl]
      have hdead : ∀ i, i < n + 1 ∧ s.Live c i ↔ i < n ∧ s.Live c i := by
        intro i
        refine and_congr_left fun h => ⟨fun hi => ?_, fun hi => by omega⟩
        by_contra hge
        have heq : i = n := by omega
        rw [heq, hlive, hdel] at h
        cases h
      refine ⟨hmem, fun i => ?_, fun x => (hsectors x).trans (or_congr_right ?_)⟩
      · simp only [hdead]
        exact hentries i
      · refine exists_congr fun i => ?_
        rw [← and_assoc, ← and_assoc, hdead]

/-- A loop of `eepromfs_init` over erased entries only fills the buffer. -/
theorem foldl_initEntry_deleted (c : Config) (s : Eefs) (h : ∀ i < c.entries, (s.entry c i).deleted = true)
    (n : ℕ) (hn : n ≤ c.entries) :
    ∃ buffer, (List.range n).foldl (initEntry c) s = s.setBuffer buffer := by
  induction n with
  | zero => exact ⟨s.buffer, rfl⟩
  | succ n ih =>
    obtain ⟨buffer, hs⟩ := ih (by omega)
    rw [List.range_succ, List.foldl_append, hs]
    refine ⟨s.entry c n, ?_⟩
    exact if_pos (h n (by omega))

theorem foldl_eraseWord (c : Config) (s : Eefs) (n : ℕ) :
    ∃ mem, (List.range n).foldl (eraseWord c) s = { s with mem } ∧
      ∀ a < 4 * n, mem (c.offset + a) = 0xff := by
  induction n with
  | zero => exact ⟨s.mem, rfl, by simp⟩
  | succ n ih =>
    obtain ⟨mem, hs, hmem⟩ := ih
    rw [List.range_succ, List.foldl_append, hs, List.foldl_cons, List.foldl_nil]
    by_cases hword : ((List.range 4).all fun b => mem (c.offset + 4 * n + b) = 0xff) = true
    · refine ⟨mem, if_pos hword, fun a ha => ?_⟩
      by_cases hlt : a < 4 * n
      · exact hmem a hlt
      · simp only [List.all_eq_true, List.mem_range, decide_eq_true_eq] at hword
        have hbyte := hword (a - 4 * n) (by omega)
        rwa [show c.offset + 4 * n + (a - 4 * n) = c.offset + a by omega] at hbyte
    · refine ⟨Memory.write mem (c.offset + 4 * n) 4 fun _ => 0xff, if_neg hword, fun a ha => ?_⟩
      by_cases hlt : a < 4 * n
      · rw [Memory.write_outside (by omega)]
        exact hmem a hlt
      · have hin := @Memory.write_inside mem (c.offset + 4 * n) 4 (a - 4 * n) (fun _ => 0xff)
          (by omega)
        rwa [show c.offset + 4 * n + (a - 4 * n) = c.offset + a by omega] at hin

/-- What `eepromfs_format` leaves behind. -/
structure Blank (c : Config) (s : Eefs) : Prop where
  dir : ∀ i, (s.table c).dir i = Entry.erased
  entries : ∀ i < c.entries, s.entryUsed i = false
  sectors : ∀ x < c.sectorCount, s.sectorUsed x = false
  count : s.freeSectors = c.sectorCount

theorem format_blank (c : Config) (s : Eefs) :
    Blank c (s.eepromfsFormat c) ∧ (s.eepromfsFormat c).markFault = s.markFault ∧
      (s.eepromfsFormat c).readFault = s.readFault ∧ (s.eepromfsFormat c).hung = s.hung := by
  obtain ⟨mem, hs, hmem⟩ := foldl_eraseWord c s ((c.size + 3) / 4)
  have herased : ∀ i < c.entries, ({ s with mem } : Eefs).entry c i = Entry.erased := by
    intro i hi
    have hpos : c.size - c.entries * 32 ≠ 0 := by
      intro hzero
      have hsectors := c.sectors_pos
      rw [hzero, Nat.zero_div] at hsectors
      omega
    funext k
    have hk := k.isLt
    show mem (c.entryAddr i + k) = 0xff
    rw [Config.entryAddr, Nat.add_assoc]
    exact hmem _ (by omega)
  obtain ⟨buffer, hinit⟩ := foldl_initEntry_deleted c (({ s with mem } : Eefs).cleared c)
    (fun i hi => congrArg Entry.deleted (herased i hi)) c.entries le_rfl
  have heq : s.eepromfsFormat c = (({ s with mem } : Eefs).cleared c).setBuffer buffer := by
    rw [eepromfsFormat, hs, eepromfsInit_eq, hinit]
  rw [heq]
  refine ⟨⟨fun i => ?_, fun i hi => getBit_clear hi, fun x hx => getBit_clear hx, rfl⟩, rfl, rfl, rfl⟩
  by_cases hi : i < c.entries
  · rw [dir_table hi]
    exact herased i hi
  · exact if_neg hi

/-- A new file on a formatted EEPROM. -/
theorem Blank.open_write (h : Blank c s) (name : Name) :
    ∃ i s', i < c.entries ∧ s'.table c = ((s.table c).take i).set i (Entry.newName name) ∧
      s.eepromfsOpen c name .write = (.ok,
        { Handle.zero with entry := i, curEntry := i, curSindex := 255, filemode := .write }, s') := by
  have hopened := opened_write c s name
  generalize s.eepromfsOpen c name .write = r at hopened
  cases hopened with
  | fileExists hfile =>
    have hlive := live_table.mpr hfile.1
    rw [Table.Live, h.dir] at hlive
    cases hlive
  | dirFull hfull =>
    have hused := hfull 0 c.entries_pos
    rw [h.entries 0 c.entries_pos] at hused
    cases hused
  | @created i s' _ hi _ htable => exact ⟨i, s', hi, htable, rfl⟩

end Eefs

end NoDiskEmu.Eeprom
