import NoDiskEmu.Eeprom.Table

/-! The directory-entry ledger: `used_entries` against the deleted flags of the entries. An entry is
taken in `eepromfs_open` and `eepromfs_write`, which set its bit; `eepromfs_delete` erases entries
and leaves their bits alone. -/

namespace NoDiskEmu.Eeprom

open Library Library.Run

/-- The bit of every entry is set exactly if the entry is not flagged deleted. -/
def Eefs.EntryLedger (c : Config) (s : Eefs) : Prop :=
  ∀ i < c.entries, s.entryUsed i = true ↔ (s.entry c i).deleted = false

/-- The ledger, and that every link leads to an entry. -/
structure Table.Indexed (c : Config) (t : Table) : Prop where
  ledger : ∀ i < c.entries, t.usedEntry i = true ↔ t.Live i
  links : ∀ i, (t.dir i).nextentry = 255 ∨ (t.dir i).nextentry < c.entries

namespace Table.Indexed

variable {c : Config} {t : Table}

theorem set (h : t.Indexed c) {i : ℕ} {e : Entry} (hdel : e.deleted = (t.dir i).deleted)
    (hnext : e.nextentry = 255 ∨ e.nextentry < c.entries) : (t.set i e).Indexed c := by
  refine ⟨fun j hj => ?_, fun j => ?_⟩
  · by_cases heq : j = i
    · subst heq
      rw [usedEntry_set, h.ledger j hj, Live, Live, dir_set_self, hdel]
    · rw [usedEntry_set, h.ledger j hj, Live, Live, dir_set_ne heq]
  · by_cases heq : j = i
    · subst heq
      rwa [dir_set_self]
    · rw [dir_set_ne heq]
      exact h.links j

theorem mark (h : t.Indexed c) (sector : ℕ) (used : Bool) : (t.mark sector used).Indexed c :=
  ⟨h.ledger, h.links⟩

theorem create (h : t.Indexed c) {i : ℕ} {e : Entry} (hdel : e.deleted = false)
    (hnext : e.nextentry = 255) : ((t.take i).set i e).Indexed c := by
  refine ⟨fun j hj => ?_, fun j => ?_⟩
  · by_cases heq : j = i
    · subst heq
      simp [Live, hdel]
    · rw [usedEntry_set, usedEntry_take_ne heq, h.ledger j hj, Live, Live, dir_set_ne heq]
      rfl
  · by_cases heq : j = i
    · subst heq
      rw [dir_set_self]
      exact .inl hnext
    · rw [dir_set_ne heq]
      exact h.links j

/-- A new entry that is linked to the entry `i`. -/
theorem extend (h : t.Indexed c) {i n sector : ℕ} (hn : n < c.entries) {e : Entry}
    (hdel : e.deleted = false) (hnext : e.nextentry = 255) :
    ((((t.take n).set i ((t.dir i).setNextentry n)).mark sector true).set n e).Indexed c := by
  have hlt := c.entries_lt
  refine ⟨fun j hj => ?_, fun j => ?_⟩
  · by_cases hjn : j = n
    · subst hjn
      simp [Live, hdel]
    · rw [usedEntry_set, usedEntry_mark, usedEntry_set, usedEntry_take_ne hjn, h.ledger j hj, Live,
        Live, dir_set_ne hjn, dir_mark]
      by_cases hji : j = i
      · subst hji
        rw [dir_set_self, Entry.deleted_setNextentry]
      · rw [dir_set_ne hji, dir_take]
  · by_cases hjn : j = n
    · subst hjn
      rw [dir_set_self]
      exact .inl hnext
    · rw [dir_set_ne hjn, dir_mark]
      by_cases hji : j = i
      · subst hji
        rw [dir_set_self, Entry.nextentry_setNextentry (by omega)]
        exact .inr hn
      · rw [dir_set_ne hji, dir_take]
        exact h.links j

end Table.Indexed

/-- A handle for writing stays inside the directory. -/
structure Handle.Indexed (c : Config) (fh : Handle) : Prop where
  entry : fh.entry < c.entries
  curEntry : fh.curEntry < c.entries
  curSoffset : fh.curSoffset < c.sectorSize

namespace Eefs

variable {c : Config} {s : Eefs}

theorem entryLedger_of_indexed (h : (s.table c).Indexed c) : s.EntryLedger c := by
  intro i hi
  have hledger := h.ledger i hi
  rwa [Table.Live, dir_table hi] at hledger

theorem indexed_addSector {fh : Handle} (hs : (s.table c).Indexed c) (hfh : fh.Indexed c) :
    let r := s.addSector c fh
    (r.2.2.table c).Indexed c ∧ r.2.1.Indexed c ∧
      (r.1 = .dirFull → ∀ i < c.entries, r.2.2.entryUsed i = true) := by
  have hadded := added_addSector c s hfh.curEntry
  generalize s.addSector c fh = r at hadded
  cases hadded with
  | hung => exact ⟨hs, hfh, by simp⟩
  | diskFull => exact ⟨hs, hfh, by simp⟩
  | dirFull _ _ hfull => exact ⟨hs, ⟨hfh.entry, hfh.curEntry, hfh.curSoffset⟩, fun _ => hfull⟩
  | recorded _ _ hlt htable =>
    have hle := ((s.table c).dir fh.curEntry).maxSectors_le
    refine ⟨?_, ⟨hfh.entry, hfh.curEntry, hfh.curSoffset⟩, by simp⟩
    rw [htable]
    refine (hs.mark _ _).set (Entry.deleted_setSector (by omega)) ?_
    rw [Entry.nextentry_setSector (by omega)]
    exact hs.links _
  | extended _ _ hn _ _ htable =>
    refine ⟨?_, ⟨hfh.entry, hn, hfh.curSoffset⟩, by simp⟩
    rw [htable]
    refine hs.extend hn ?_ ?_
    · rw [Entry.deleted_setSector (by omega), Entry.deleted_newList]
    · rw [Entry.nextentry_setSector (by omega), Entry.nextentry_newList]

theorem writeChunk_pos {fh : Handle} {data : List UInt8} (h : fh.curSoffset < c.sectorSize)
    (hdata : data ≠ []) : 0 < (s.writeChunk c fh data).1 := by
  have hlt := c.sectorSize_lt
  have hlen := List.length_pos_iff.mpr hdata
  show 0 < min data.length (c.sectorSize - fh.curSoffset) % 256
  rw [Nat.mod_eq_of_lt (by omega)]
  omega

theorem indexed_write {fh : Handle} {data : List UInt8} (hs : (s.table c).Indexed c)
    (hfh : fh.filemode ≠ .read → fh.Indexed c) :
    let r := s.eepromfsWrite c fh data
    (r.2.2.2.table c).Indexed c ∧ (r.2.2.1.filemode ≠ .read → r.2.2.1.Indexed c) ∧
      (r.1 = .dirFull → ∀ i < c.entries, r.2.2.2.entryUsed i = true) := by
  rw [eepromfsWrite]
  by_cases hmode : fh.filemode = .write
  · rw [if_neg (by simpa using hmode)]
    have hrule := writeLoop_rule (c := c)
      (I := fun s fh' _ _ => (s.table c).Indexed c ∧ fh'.Indexed c)
      (J := fun s fh' _ _ => (s.table c).Indexed c ∧ fh'.Indexed c)
      (F := fun status _ fh' s => (s.table c).Indexed c ∧ fh'.Indexed c ∧
        (status = .dirFull → ∀ i < c.entries, s.entryUsed i = true)) ?_ ?_ ?_
      (s := s) (w := 0) ⟨hs, hfh (by simp [hmode])⟩ (Nat.le_refl data.length)
    · rcases hrule with ⟨hok, htable, hidx⟩ | ⟨-, htable, hidx, hfull⟩
      · exact ⟨htable, fun _ => hidx, by simp [hok]⟩
      · exact ⟨htable, fun _ => hidx, hfull⟩
    · rintro s fh data w ⟨hs, hfh⟩ - -
      obtain ⟨htable, hidx, hfull⟩ := indexed_addSector hs hfh
      by_cases hok : (s.addSector c fh).1 = .ok
      · exact .inl ⟨hok, htable, hidx⟩
      · exact .inr ⟨hok, htable, hidx, hfull⟩
    · exact fun s fh data w h _ => h
    · rintro s fh data w ⟨hs, hfh⟩ hdata
      refine ⟨writeChunk_pos hfh.curSoffset hdata, ?_, ⟨hfh.entry, hfh.curEntry, ?_⟩⟩
      · exact (table_writeData ..).symm ▸ hs
      · exact Nat.mod_lt _ c.sectorSize_pos
  · rw [if_pos hmode]
    exact ⟨hs, hfh, by simp⟩

theorem lastEntry_indexed (hs : (s.table c).Indexed c) {i : ℕ} (hi : i < c.entries)
    (hbuffer : s.buffer = s.entry c i) (fuel : ℕ) :
    (lastEntry c fuel s i).1 < c.entries ∧ (lastEntry c fuel s i).2.table c = s.table c := by
  induction fuel generalizing s i with
  | zero => exact ⟨hi, rfl⟩
  | succ fuel ih =>
    rw [lastEntry]
    split
    · next hnext =>
      have hlink := hs.links i
      rw [dir_table hi, ← hbuffer] at hlink
      exact ih (s := s.readEntry c s.buffer.nextentry) hs (hlink.resolve_left hnext) rfl
    · exact ⟨hi, rfl⟩

theorem indexed_open (hs : (s.table c).Indexed c) (name : Name) (mode : Mode) :
    let r := s.eepromfsOpen c name mode
    (r.2.2.table c).Indexed c ∧ (r.2.1.filemode ≠ .read → r.2.1.Indexed c) ∧
      (r.1 = .dirFull → ∀ i < c.entries, r.2.2.entryUsed i = true) := by
  cases mode with
  | write =>
    have hopened := opened_write c s name
    generalize s.eepromfsOpen c name .write = r at hopened
    cases hopened with
    | fileExists => exact ⟨hs, by simp [Handle.zero], by simp⟩
    | dirFull hfull => exact ⟨hs, by simp [Handle.zero], fun _ => hfull⟩
    | created hnew hi hfree htable =>
      refine ⟨?_, fun _ => ⟨hi, hi, c.sectorSize_pos⟩, by simp⟩
      rw [htable]
      exact hs.create Entry.deleted_newName Entry.nextentry_newName
  | append =>
    obtain ⟨buffer, heq, ⟨h255, -⟩ | ⟨hfile, hbuffer⟩⟩ := findEntry_cases c s name
    · simp only [eepromfsOpen, h255, heq, if_true]
      exact ⟨hs, by simp [Handle.zero], by simp⟩
    · have hlt := hfile.1.1
      have hent := c.entries_lt
      simp only [eepromfsOpen, heq]
      rw [if_neg (by omega)]
      obtain ⟨hcur, htable⟩ := lastEntry_indexed (s := s.setBuffer buffer) hs hlt hbuffer 257
      refine ⟨htable.symm ▸ hs, fun _ => ⟨hlt, hcur, Nat.mod_lt _ c.sectorSize_pos⟩, by simp [openAppend]⟩
  | read =>
    obtain ⟨buffer, heq, -⟩ := findEntry_cases c s name
    simp only [eepromfsOpen, heq]
    split
    · exact ⟨hs, by simp [Handle.zero], by simp⟩
    · exact ⟨hs, by simp [openRead, Handle.zero], by simp [openRead]⟩

theorem indexed_rename (hs : (s.table c).Indexed c) (oldname newname : Name) :
    ((s.eepromfsRename c oldname newname).2.table c).Indexed c := by
  have hrenamed := renamed_rename c s oldname newname
  generalize s.eepromfsRename c oldname newname = r at hrenamed
  cases hrenamed with
  | refused => exact hs
  | renamed hnew hold htable =>
    rw [htable]
    refine hs.set Entry.deleted_setName ?_
    rw [Entry.nextentry_setName]
    exact hs.links _

theorem indexed_close (hs : (s.table c).Indexed c) {fh : Handle}
    (hfh : fh.filemode ≠ .read → fh.entry < c.entries) :
    ((s.eepromfsClose c fh).2.table c).Indexed c := by
  by_cases hmode : fh.filemode = .read
  · rwa [close_read hmode]
  · obtain ⟨s', heq, -, htable, -⟩ := close_write (s := s) hmode (hfh hmode)
    rw [heq, htable]
    refine hs.set Entry.deleted_setSize ?_
    rw [Entry.nextentry_setSize]
    exact hs.links _

theorem indexed_of_blank (h : Blank c s) : (s.table c).Indexed c := by
  refine ⟨fun i hi => ?_, fun i => .inl (by rw [h.dir i]; rfl)⟩
  rw [Table.Live, h.dir i, ← entryUsed_table, h.entries i hi]
  decide

/-- An erased entry stays erased while `eepromfs_delete` goes on. -/
theorem deleteChain_keeps (fuel : ℕ) (s : Eefs) (i j : ℕ) :
    (s.deleteChain c fuel i).entryUsed = s.entryUsed ∧
      ((s.entry c j).deleted = true ∨ 0 < fuel ∧ j = i →
        ((s.deleteChain c fuel i).entry c j).deleted = true) := by
  induction fuel generalizing s i with
  | zero => exact ⟨rfl, fun h => h.elim id (fun h => absurd h.1 (by omega))⟩
  | succ fuel ih =>
    rw [deleteChain]
    have hused : (s.markSectors s.buffer.leading false).entryUsed = s.entryUsed := by
      funext k
      rw [entryUsed_table (c := c), table_markSectors]
      rfl
    have hdeleted : (s.entry c j).deleted = true ∨ 0 < fuel + 1 ∧ j = i →
        ((((s.markSectors s.buffer.leading false).setBuffer Entry.erased).writeEntry c i).entry c
          j).deleted = true := by
      intro h
      rw [entry_writeEntry]
      split
      · exact Entry.deleted_erased
      · next hne =>
        have hj := h.resolve_right fun h => hne h.2
        have hmem := (mem_markSectors (s := s) s.buffer.leading false).1
        rw [← hj]
        congr 1
        funext k
        rw [entry, entry]
        exact congrFun hmem _
    split
    · exact ⟨hused, hdeleted⟩
    · exact ⟨(ih _ _).1.trans hused, fun h => (ih _ _).2 (.inl (hdeleted h))⟩

/-- A deleted file leaves its bit behind. -/
theorem not_entryLedger_delete (hs : s.EntryLedger c) {name : Name} {i : ℕ}
    (h : s.IsFile c i name) : ¬(s.eepromfsDelete c name).2.EntryLedger c := by
  obtain ⟨buffer, heq, ⟨-, hnone⟩ | ⟨hfile, -⟩⟩ := findEntry_cases c s name
  · exact absurd h (hnone i)
  · have hlt := hfile.1.1
    have hent := c.entries_lt
    intro hledger
    simp only [eepromfsDelete, heq] at hledger
    rw [if_neg (by omega)] at hledger
    obtain ⟨hused, hdeleted⟩ := deleteChain_keeps (c := c) 257 (s.setBuffer buffer)
      (s.findEntry c name).1 (s.findEntry c name).1
    have hiff := hledger _ hlt
    rw [hused, hdeleted (.inr ⟨by decide, rfl⟩)] at hiff
    exact absurd (hiff.mp ((hs _ hlt).mpr hfile.1.2)) (by decide)

end Eefs

namespace Machine

variable {c : Config} {m : Machine}

structure Indexed (c : Config) (m : Machine) : Prop where
  table : (m.fs.table c).Indexed c
  handles : ∀ h, (m.handle h).filemode ≠ .read → (m.handle h).Indexed c

/-- The call deletes a file that exists. -/
def Deletes (c : Config) (m : Machine) : Call → Prop
  | .delete name => ∃ i, m.fs.IsFile c i name
  | _ => False

theorem Indexed.set (hm : m.Indexed c) {h : ℕ} {fh : Handle} {failed : Bool} {fs : Eefs}
    (hfs : (fs.table c).Indexed c) (hfh : fh.filemode ≠ .read → fh.Indexed c) :
    (m.set h fh failed fs).Indexed c := by
  refine ⟨hfs, fun k hk => ?_⟩
  by_cases heq : k = h
  · subst heq
    simp only [Machine.set, Function.update_self] at hk ⊢
    exact hfh hk
  · simp only [Machine.set, Function.update_of_ne heq] at hk ⊢
    exact hm.handles k hk

theorem indexed_step (hm : m.Indexed c) (a : Call) (ha : ¬m.Deletes c a) :
    (m.step c a).2.Indexed c := by
  cases a with
  | format => exact ⟨Eefs.indexed_of_blank (Eefs.format_blank c m.fs).1, hm.handles⟩
  | «open» h name mode =>
    obtain ⟨htable, hidx, -⟩ := Eefs.indexed_open hm.table name mode
    exact hm.set htable hidx
  | write h data =>
    obtain ⟨htable, hidx, -⟩ := Eefs.indexed_write hm.table (hm.handles h)
    exact hm.set htable hidx
  | read h length =>
    rw [step, Eefs.eepromfsRead]
    split
    · exact hm.set hm.table (hm.handles h)
    · next hmode =>
      have hread : (m.handle h).filemode = .read := not_not.mp hmode
      obtain ⟨htable, hkeep, -⟩ := Eefs.same_readLoop (c := c) _ m.fs (m.handle h) _
      exact hm.set (htable.symm ▸ hm.table) fun hw => absurd (hkeep.trans hread) hw
  | close h =>
    refine hm.set ?_ (by simp [Eefs.eepromfsClose])
    exact Eefs.indexed_close hm.table fun hmode => (hm.handles h hmode).entry
  | rename oldname newname => exact ⟨Eefs.indexed_rename hm.table oldname newname, hm.handles⟩
  | delete name =>
    obtain ⟨buffer, heq, ⟨h255, -⟩ | ⟨hfile, -⟩⟩ := Eefs.findEntry_cases c m.fs name
    · refine ⟨?_, hm.handles⟩
      simp only [step, Eefs.eepromfsDelete, h255, heq, if_true]
      exact hm.table
    · exact absurd ⟨_, hfile⟩ ha

theorem indexed_formatted (c : Config) (s : Eefs) : (formatted c s).Indexed c :=
  ⟨Eefs.indexed_of_blank (Eefs.format_blank c _).1, fun _ h => absurd rfl h⟩

/-- A call that reports a full directory finds every entry in use. -/
theorem live_of_dirFull (hm : m.Indexed c) (a : Call) (h : (m.step c a).1.status = .dirFull) :
    ∀ i < c.entries, (m.step c a).2.fs.Live c i := by
  have hcase : ¬m.Deletes c a ∧ ∀ i < c.entries, (m.step c a).2.fs.entryUsed i = true := by
    cases a with
    | format => cases h
    | «open» k name mode => exact ⟨id, (Eefs.indexed_open hm.table name mode).2.2 h⟩
    | write k data => exact ⟨id, (Eefs.indexed_write hm.table (hm.handles k)).2.2 h⟩
    | read k length =>
      simp only [step, Eefs.eepromfsRead] at h
      split at h <;> cases h
    | close k => cases h
    | rename oldname newname =>
      have hrenamed := Eefs.renamed_rename c m.fs oldname newname
      simp only [step, Reply.of] at h
      generalize m.fs.eepromfsRename c oldname newname = r at hrenamed h
      cases hrenamed with
      | refused hstatus => rcases hstatus with rfl | rfl <;> cases h
      | renamed => cases h
    | delete name =>
      simp only [step, Eefs.eepromfsDelete] at h
      split at h <;> cases h
  intro i hi
  have hledger := (indexed_step hm a hcase.1).table.ledger i hi
  exact Eefs.live_table.mp (hledger.mp (hcase.2 i hi))

/-- Along a run the ledger holds in every state, and the directory is reported full only when every
entry is in use. -/
def LedgerKept (c : Config) (m : Machine) (calls : List Call) : Prop :=
  Always (step c) (fun m => m.fs.EntryLedger c) m calls ∧
    ∀ n a, calls[n]? = some a →
      (step c (run (step c) m (calls.take n)).2 a).1.status = .dirFull →
      ∀ i < c.entries, (step c (run (step c) m (calls.take n)).2 a).2.fs.Live c i

theorem indexed_run (hm : m.Indexed c) {calls : List Call}
    (h : Meets (step c) (fun m a => ¬m.Deletes c a) m calls) :
    Always (step c) (Indexed c) m calls :=
  always_of_step (fun _ a hm ha => indexed_step hm a ha) hm h

/-- The ledger is kept in a run from a format on exactly if no call of the run deletes a file that
exists. -/
theorem ledgerKept_iff (c : Config) (s : Eefs) (calls : List Call) :
    LedgerKept c (formatted c s) calls ↔
      Meets (step c) (fun m a => ¬m.Deletes c a) (formatted c s) calls := by
  have hiff : Always (step c) (fun m => m.fs.EntryLedger c) (formatted c s) calls ↔
      Meets (step c) (fun m a => ¬m.Deletes c a) (formatted c s) calls := by
    refine always_iff_meets (fun m hm => Eefs.entryLedger_of_indexed hm.table)
      (fun m a hm ha => indexed_step hm a ha) (fun m a hm ha => ?_) (indexed_formatted c s)
    cases a with
    | delete name =>
      obtain ⟨i, hfile⟩ := not_not.mp ha
      exact Eefs.not_entryLedger_delete (Eefs.entryLedger_of_indexed hm.table) hfile
    | _ => exact absurd id ha
  refine ⟨fun h => hiff.mp h.1, fun h => ⟨hiff.mpr h, fun n a _ hstatus => ?_⟩⟩
  exact live_of_dirFull (indexed_run (indexed_formatted c s) h n) a hstatus

/-- A new file on a formatted EEPROM. -/
theorem isFile_open_formatted (c : Config) (s : Eefs) (h : ℕ) (name : Name) :
    ∃ i, ((formatted c s).step c (.open h name .write)).2.fs.IsFile c i name := by
  have hblank : Eefs.Blank c (formatted c s).fs := (Eefs.format_blank c _).1
  obtain ⟨i, s', -, htable, heq⟩ := hblank.open_write name
  refine ⟨i, Eefs.isFile_table.mpr ?_⟩
  show (((formatted c s).fs.eepromfsOpen c name .write).2.2.table c).Live i ∧
    ((((formatted c s).fs.eepromfsOpen c name .write).2.2.table c).dir i).isListentry = false ∧
    ((((formatted c s).fs.eepromfsOpen c name .write).2.2.table c).dir i).name = name
  rw [heq, htable, Table.Live, Table.dir_set_self]
  exact ⟨Entry.deleted_newName, Entry.isListentry_newName, Entry.name_newName⟩

theorem isFile_close (hm : m.Indexed c) (h : ℕ) {i : ℕ} {name : Name} (hfile : m.fs.IsFile c i name) :
    (m.step c (.close h)).2.fs.IsFile c i name := by
  show (m.fs.eepromfsClose c (m.handle h)).2.IsFile c i name
  by_cases hmode : (m.handle h).filemode = .read
  · rwa [Eefs.close_read hmode]
  · obtain ⟨s', heq, -, htable, -⟩ :=
      Eefs.close_write (s := m.fs) hmode (hm.handles h hmode).entry
    rw [heq]
    rw [Eefs.isFile_table] at hfile ⊢
    rw [htable, Table.Live]
    by_cases hi : i = (m.handle h).entry
    · subst hi
      rw [Table.dir_set_self]
      simpa [Table.Live] using hfile
    · rwa [Table.dir_set_ne hi]

/-- A file that is created, closed and deleted leaves the bit of its entry set. -/
theorem not_ledgerKept_delete (c : Config) (s : Eefs) (name : Name) :
    ¬LedgerKept c (formatted c s) [.open 0 name .write, .close 0, .delete name] := by
  intro h
  have hm := indexed_step (indexed_formatted c s) (.open 0 name .write) id
  obtain ⟨i, hfile⟩ := isFile_open_formatted c s 0 name
  have hledger := Eefs.entryLedger_of_indexed (indexed_step hm (.close 0) id).table
  exact Eefs.not_entryLedger_delete hledger (isFile_close hm 0 hfile) (h.1 3)

theorem ledger_broken : ¬LedgerKept Config.avr
    (formatted Config.avr ⟨fun _ => 255, fun _ => 0, fun _ => 0, 0, fun _ => 0, false, false, false⟩)
    [.open 0 (fun _ => 65) .write, .close 0, .delete fun _ => 65] :=
  not_ledgerKept_delete Config.avr _ _

end Machine

end NoDiskEmu.Eeprom
