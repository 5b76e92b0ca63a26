import Mathlib.Data.Finset.Card
import NoDiskEmu.Eeprom.Write

/-! Runs of EEPROMFS calls without append mode: every call keeps the directory well-formed and the
handles for writing in step with it, also when files are deleted while handles write to them. -/

namespace NoDiskEmu.Eeprom

open Library Library.Run

variable {c : Config} {s s' : Eefs} {t t' : Table} {g g' : Places} {fh : Handle}

/-- The entry that `eepromfs_delete` erases next. -/
structure Table.Head (t : Table) (g : Places) (d : ℕ) : Prop where
  live : t.Live d
  root : g.own d = d ∨ ¬t.Live (g.own d)
  first : ∀ p, t.Live p → (t.dir p).nextentry ≠ d

theorem Table.Head.of_root (hl : t.Links c g) {d : ℕ} (hd : t.Live d)
    (hlist : (t.dir d).isListentry = false) : t.Head g d := by
  obtain ⟨hown, hpos⟩ := hl.root d hd hlist
  refine ⟨hd, .inl hown, fun p hp hnext => ?_⟩
  have hne : (t.dir p).nextentry ≠ 255 := by
    have hb := hl.bound d hd
    have hent := c.entries_lt
    omega
  have hpos' := (hl.next p hp hne).2.2
  rw [hnext] at hpos'
  omega

theorem Table.live_erase {d i : ℕ} : (t.erase d).Live i ↔ t.Live i ∧ i ≠ d := by
  by_cases hi : i = d
  · subst hi
    simp [Table.erase, Table.Live]
  · have hdir : (t.erase d).dir i = t.dir i := by
      rw [Table.erase, Table.dir_set_ne hi]
      rfl
    rw [Table.Live, hdir, Table.Live]
    simp [hi]

theorem Table.Head.next (hl : t.Links c g) {d : ℕ} (h : t.Head g d)
    (hnext : (t.dir d).nextentry ≠ 255) : (t.erase d).Head g (t.dir d).nextentry := by
  obtain ⟨hlive, hown, hpos⟩ := hl.next d h.live hnext
  refine ⟨live_erase.mpr ⟨hlive, h.first d h.live⟩, .inr ?_, fun p hp heq => ?_⟩
  · rw [hown, live_erase]
    rintro ⟨hown', hne⟩
    rcases h.root with hr | hr
    · exact hne hr
    · exact hr hown'
  · obtain ⟨hp', hpd⟩ := live_erase.mp hp
    have hdir : (t.erase d).dir p = t.dir p := by
      rw [Table.erase, Table.dir_set_ne hpd]
      rfl
    rw [hdir] at heq
    obtain ⟨-, hpown, hppos⟩ := hl.next p hp' (heq ▸ hnext)
    rw [heq] at hpown hppos
    exact hpd (hl.inj p d hp' h.live (hpown.symm.trans hown) (by omega))

/-- The entries in use. -/
def Table.liveCount (c : Config) (t : Table) : ℕ :=
  ((Finset.range c.entries).filter fun i => (t.dir i).deleted = false).card

theorem Table.liveCount_erase (hl : t.Links c g) {d : ℕ} (hd : t.Live d) :
    (t.erase d).liveCount c < t.liveCount c := by
  refine Finset.card_lt_card ⟨fun i hi => ?_, fun hsub => ?_⟩
  · rw [Finset.mem_filter] at hi ⊢
    exact ⟨hi.1, (live_erase.mp hi.2).1⟩
  · have hmem := hsub (Finset.mem_filter.mpr ⟨Finset.mem_range.mpr (hl.bound d hd), hd⟩)
    exact (live_erase.mp (Finset.mem_filter.mp hmem).2).2 rfl

/-- The rule for the loop of `eepromfs_delete`: what erasing an entry preserves, the loop
preserves. -/
theorem deleteChain_rule {P : Eefs → Prop} {r : ℕ}
    (hset : ∀ s buffer, P s → P (s.setBuffer buffer))
    (hstep : ∀ s s' d, (s.table c).Sound c g → (s.table c).Head g d → g.own d = r → P s →
      Eefs.Quiet c s s' →
      s'.table c = (s.table c).erase d →
      s'.freeSectors = Eefs.count s.freeSectors ((s.table c).dir d).leading.length false → P s')
    {fuel d : ℕ} (hs : (s.table c).Sound c g) (hd : (s.table c).Head g d) (hown : g.own d = r)
    (hbuffer : s.buffer = s.entry c d) (hfree : s.freeSectors < 256)
    (hfuel : (s.table c).liveCount c ≤ fuel) (hP : P s) :
    ∃ s', s.deleteChain c fuel d = s' ∧ (s'.table c).Sound c g ∧ Eefs.Quiet c s s' ∧ P s' := by
  induction fuel generalizing s d with
  | zero =>
    have hlt := Table.liveCount_erase hs.links hd.live
    omega
  | succ fuel ih =>
    have hlt := hs.links.bound d hd.live
    have hdir := Eefs.dir_table (s := s) hlt
    obtain ⟨s', hquiet, htable, hcount, heq⟩ := Eefs.deleteChain_succ hlt hbuffer
      (hdir ▸ hs.listing.nodup_leading hd.live) (fun x hx => by
        rw [← hdir, hs.listing.mem_leading hd.live] at hx
        obtain ⟨j, hj⟩ := hx
        exact (hs.listing.valid d j x hj).2) hfree
    rw [← hdir] at hcount heq
    have hsound : (s'.table c).Sound c g := by
      rw [htable]
      exact hs.erase hd.live hd.root hd.first
    have hP' := hstep s s' d hs hd hown hP hquiet htable hcount
    by_cases hnext : ((s.table c).dir d).nextentry = 255
    · rw [if_pos hnext] at heq
      exact ⟨s', heq, hsound, hquiet, hP'⟩
    · rw [if_neg hnext] at heq
      have hhead : (s'.table c).Head g ((s.table c).dir d).nextentry := by
        rw [htable]
        exact hd.next hs.links hnext
      have hcnt := Table.liveCount_erase hs.links hd.live
      rw [← htable] at hcnt
      have hmod : s'.freeSectors < 256 := by
        rw [hcount]
        exact Nat.mod_lt _ (by decide)
      obtain ⟨s'', heq', hsound', hquiet', hP''⟩ :=
        ih (s := s'.readEntry c ((s.table c).dir d).nextentry) hsound hhead
          ((hs.links.next d hd.live hnext).2.1.trans hown) rfl hmod
          (by rw [Eefs.table_readEntry]; omega) (hset _ _ hP')
      exact ⟨s'', heq.trans heq', hsound', (hquiet.trans (Eefs.quiet_buffer _)).trans hquiet', hP''⟩

namespace Handle

/-- A handle keeps up with the entries that `eepromfs_delete` erases: once the first entry of its
file is gone, little is asked of it. -/
theorem Writer.erase (hw : fh.Writer c t g) (hl : t.Links c g) {d : ℕ} (hd : t.Head g d) :
    fh.Writer c (t.erase d) g := by
  by_cases hown : g.own d = fh.entry
  · have hdead : ¬(t.erase d).Live fh.entry := by
      rw [Table.live_erase]
      rintro ⟨hlive, hne⟩
      rcases hd.root with hr | hr
      · exact hne (hown.symm.trans hr)
      · exact hr (hown.symm ▸ hlive)
    exact ⟨hw.entry_lt, hw.curEntry_lt, hw.entryUsed, hw.curEntryUsed, hw.ownEntry, hw.ownCurEntry,
      fun h => absurd h hdead, fun i hi => hw.last i (Table.live_erase.mp hi).1,
      fun h => absurd h hdead, hw.curSector_lt, hw.curSoffset_lt, hw.size_lt, fun h => absurd h hdead⟩
  · exact hw.frame (Table.Frame.erase hl hd.live) hl (Ne.symm hown)

theorem Tied.erase {n : ℕ} (ht : fh.Tied c t g n) (hw : fh.Writer c t g) (hl : t.Links c g) {d : ℕ}
    (hd : t.Head g d) : fh.Tied c (t.erase d) g n := by
  by_cases hown : g.own d = fh.entry
  · have hdead : ¬(t.erase d).Live fh.entry := by
      rw [Table.live_erase]
      rintro ⟨hlive, hne⟩
      rcases hd.root with hr | hr
      · exact hne (hown.symm.trans hr)
      · exact hr (hown.symm ▸ hlive)
    refine ⟨fun h => ?_, fun h => absurd h hdead, fun h => absurd h hdead, fun h => absurd h hdead,
      fun h => absurd h hdead⟩
    obtain ⟨hcur, hne⟩ := Table.live_erase.mp h
    have hdir : (t.erase d).dir fh.curEntry = t.dir fh.curEntry := by
      rw [Table.erase, Table.dir_set_ne hne]
      rfl
    rw [hdir]
    exact ht.filled hcur
  · exact ht.frame hw (Table.Frame.erase hl hd.live) (Ne.symm hown)

/-- A table with the same links and sectors, as after a rename. -/
theorem Writer.congr (hw : fh.Writer c t g) (hl : t.SameLinks t') (hg : t.Grows g t' g) :
    fh.Writer c t' g := by
  refine ⟨hw.entry_lt, hw.curEntry_lt, ?_, ?_, hw.ownEntry, hw.ownCurEntry, fun h => ?_, fun i hi => ?_,
    fun h => ?_, hw.curSector_lt, hw.curSoffset_lt, hw.size_lt, fun h => ?_⟩
  · rw [hl.usedEntry]
    exact hw.entryUsed
  · rw [hl.usedEntry]
    exact hw.curEntryUsed
  · rw [hl.isListentry]
    exact hw.name ((hl.live _).mp h)
  · exact hw.last i ((hl.live i).mp hi)
  · exact (hl.live _).mpr (hw.curEntryLive ((hl.live _).mp h))
  · exact hg.holds (hw.holds ((hl.live _).mp h))

theorem Tied.congr_sectors {n : ℕ} (ht : fh.Tied c t g n) (hw : fh.Writer c t g)
    (hl : t.SameLinks t')
    (hsec : t.Live fh.curEntry → ∀ j < (t.dir fh.curEntry).maxSectors,
      (t'.dir fh.curEntry).sector j = (t.dir fh.curEntry).sector j) : fh.Tied c t' g n := by
  have hmax := Entry.maxSectors_eq_of_flags (hl.isListentry fh.curEntry)
  refine ⟨fun h => ?_, fun h => ht.count ((hl.live _).mp h), fun h => ht.start ((hl.live _).mp h),
    fun h => ht.offset ((hl.live _).mp h), fun h hpos => ?_⟩
  · have hcur := (hl.live _).mp h
    rw [hmax]
    refine ⟨(ht.filled hcur).1, fun j hj => ?_⟩
    rw [hsec hcur j hj]
    exact (ht.filled hcur).2 j hj
  · have hlive := (hl.live _).mp h
    have hcur := hw.curEntryLive hlive
    have hle := (ht.filled hcur).1
    rw [hsec hcur _ (by omega)]
    exact ht.sector hlive hpos

/-- The directory after the size was recorded. -/
theorem Writer.close (hw : fh.Writer c t g) (hs : t.Sound c g) :
    (t.set fh.entry ((t.dir fh.entry).setSize fh.size)).Sound c g ∧
      t.Grows g (t.set fh.entry ((t.dir fh.entry).setSize fh.size)) g := by
  refine hs.set Entry.deleted_setSize Entry.isListentry_setSize Entry.nextentry_setSize
    (fun hlive j hj => ?_) (.inl Entry.name_setSize) (fun hlive _ => ?_)
  · have hmax : (t.dir fh.entry).maxSectors = 12 := by
      rw [Entry.maxSectors, hw.name hlive]
      rfl
    exact Entry.sector_setSize (by omega)
  · rw [Entry.size_setSize hw.size_lt]
    exact hw.holds hlive

end Handle

/-- The directory and every handle for writing are in step. -/
structure Machine.Sound (c : Config) (m : Machine) (g : Places) : Prop where
  table : (m.fs.table c).Sound c g
  writer : ∀ h, (m.handle h).filemode ≠ .read → (m.handle h).Writer c (m.fs.table c) g
  tied : ∀ h, (m.handle h).filemode ≠ .read → m.failed h = false →
    (m.handle h).Tied c (m.fs.table c) g (blocks c (m.handle h).size)
  mode : ∀ h, (m.handle h).filemode ≠ .append
  apart : ∀ h h', (m.handle h).filemode ≠ .read → (m.handle h').filemode ≠ .read → h ≠ h' →
    (m.handle h).entry ≠ (m.handle h').entry
  markFault : m.fs.markFault = false
  hung : m.fs.hung = false
  free : m.fs.freeSectors < 256

namespace Machine.Sound

variable {m : Machine}

/-- A call on handle `h` that changes only what belongs to the file `r`. -/
theorem update (hm : m.Sound c g) {h r : ℕ} {fh : Handle} {failed : Bool} {fs : Eefs}
    (hs : (fs.table c).Sound c g') (hframe : (m.fs.table c).Frame r g (fs.table c) g')
    (hothers : ∀ k, k ≠ h → (m.handle k).filemode ≠ .read → (m.handle k).entry ≠ r)
    (hmode : fh.filemode ≠ .append)
    (hfh : fh.filemode ≠ .read → fh.entry = r ∧ fh.Writer c (fs.table c) g' ∧
      (failed = false → fh.Tied c (fs.table c) g' (blocks c fh.size)))
    (hmark : fs.markFault = false) (hhung : fs.hung = false) (hfree : fs.freeSectors < 256) :
    (m.set h fh failed fs).Sound c g' := by
  refine ⟨hs, fun k hk => ?_, fun k hk hf => ?_, fun k => ?_, fun k k' hk hk' hkk => ?_, hmark, hhung,
    hfree⟩
  · by_cases heq : k = h
    · subst heq
      rw [handle_set_self] at hk ⊢
      exact (hfh hk).2.1
    · rw [handle_set_ne heq] at hk ⊢
      exact (hm.writer k hk).frame hframe hm.table.links (hothers k heq hk)
  · by_cases heq : k = h
    · subst heq
      rw [handle_set_self] at hk ⊢
      rw [failed_set_self] at hf
      exact (hfh hk).2.2 hf
    · rw [handle_set_ne heq] at hk ⊢
      rw [failed_set_ne heq] at hf
      exact (hm.tied k hk hf).frame (hm.writer k hk) hframe (hothers k heq hk)
  · by_cases heq : k = h
    · subst heq
      rwa [handle_set_self]
    · rw [handle_set_ne heq]
      exact hm.mode k
  · by_cases heq : k = h <;> by_cases heq' : k' = h
    · exact absurd (heq.trans heq'.symm) hkk
    · subst heq
      rw [handle_set_self] at hk ⊢
      rw [handle_set_ne heq'] at hk' ⊢
      rw [(hfh hk).1]
      exact (hothers k' heq' hk').symm
    · subst heq'
      rw [handle_set_self] at hk' ⊢
      rw [handle_set_ne heq] at hk ⊢
      rw [(hfh hk').1]
      exact hothers k heq hk
    · rw [handle_set_ne heq] at hk ⊢
      rw [handle_set_ne heq'] at hk' ⊢
      exact hm.apart k k' hk hk' hkk

/-- A call on handle `h` that leaves the directory alone and the handle not open for writing. -/
theorem keep (hm : m.Sound c g) {h : ℕ} {fh : Handle} {failed : Bool} {fs : Eefs}
    (htable : fs.table c = m.fs.table c) (hmode : fh.filemode = .read)
    (hmark : fs.markFault = false) (hhung : fs.hung = false) (hfree : fs.freeSectors < 256) :
    (m.set h fh failed fs).Sound c g := by
  have hent := c.entries_lt
  refine hm.update (r := 256) (htable.symm ▸ hm.table) (htable.symm ▸ .refl _ _ _ hm.table.links)
    (fun k _ hk => ?_) (by simp [hmode]) (fun h => absurd hmode h) hmark hhung hfree
  have hlt := (hm.writer k hk).entry_lt
  omega

/-- Opening a file for writing; the files that exist stay as they are. -/
theorem openWrite (hm : m.Sound c g) (h : ℕ) (name : Name) :
    let r := m.fs.eepromfsOpen c name .write
    ∃ g', (m.set h r.2.1 false r.2.2).Sound c g' ∧
      (m.fs.table c).Grows g (r.2.2.table c) g' ∧ r.2.2.data c = m.fs.data c ∧
      (∀ i, m.fs.Live c i → (r.2.2.table c).dir i = (m.fs.table c).dir i) ∧
      (r.2.2.table c).usedSector = (m.fs.table c).usedSector ∧
      r.2.2.freeSectors = m.fs.freeSectors ∧
      (r.1 = .ok → r.2.2.IsFile c r.2.1.entry name ∧ r.2.1.size = 0 ∧ r.2.1.filemode = .write ∧
        (m.fs.table c).usedEntry r.2.1.entry = false) := by
  have hopened := Eefs.opened_write c m.fs name
  generalize m.fs.eepromfsOpen c name .write = r at hopened ⊢
  cases hopened with
  | fileExists =>
    exact ⟨g, hm.keep rfl rfl hm.markFault hm.hung hm.free,
      ⟨fun _ _ _ h => h, fun _ _ => ⟨rfl, rfl⟩⟩, rfl, fun _ _ => rfl, rfl, rfl, by simp⟩
  | dirFull =>
    exact ⟨g, hm.keep rfl rfl hm.markFault hm.hung hm.free,
      ⟨fun _ _ _ h => h, fun _ _ => ⟨rfl, rfl⟩⟩, rfl, fun _ _ => rfl, rfl, rfl, by simp⟩
  | @created i s' hnew hi hfree htable hquiet hcount =>
    have hfree' : (m.fs.table c).usedEntry i = false := hfree
    have hcreate := hm.table.create hi hfree' fun j hj hlist hname =>
      hnew j (Eefs.isFile_table.mpr ⟨hj, hlist, hname⟩)
    obtain ⟨hsound, hgrows⟩ := hcreate
    have hdead := hm.table.links.not_live hfree'
    have hframe := Table.Frame.create hm.table.links hfree' (Entry.newName name)
    rw [← htable] at hsound hframe hgrows
    have hdir : (s'.table c).dir i = Entry.newName name := by rw [htable, Table.dir_set_self]
    have hused : (s'.table c).usedEntry i = true := by
      rw [htable]
      exact Table.usedEntry_take_self
    have hmax : (Entry.newName name).maxSectors = 12 := by
      rw [Entry.maxSectors, Entry.isListentry_newName]
      rfl
    have hzero : blocks c 0 = 0 := by
      have hpos := c.sectorSize_pos
      exact Nat.div_eq_of_lt (by omega)
    refine ⟨_, hm.update hsound hframe (fun k _ hk heq => ?_) (by simp) (fun _ => ⟨rfl, ?_, fun _ => ?_⟩)
      (hquiet.markFault.trans hm.markFault) (hquiet.hung.trans hm.hung) (hcount ▸ hm.free), hgrows,
      hquiet.data, fun j hj => ?_, by rw [htable]; rfl, hcount,
      fun _ => ⟨?_, rfl, rfl, hfree'⟩⟩
    · have huk := (hm.writer k hk).entryUsed
      rw [heq, hfree'] at huk
      cases huk
    · refine ⟨hi, hi, hused, hused, Places.own_put_self, Places.own_put_self, fun _ => ?_,
        fun j hj hown => ?_, id, c.sectors_pos, c.sectorSize_pos,
        show (0 : ℕ) < 65536 by decide, fun _ k hk => ?_⟩
      · rw [hdir, Entry.isListentry_newName]
      · -- nothing else belongs to an entry that was just taken
        by_cases hji : j = i
        · rw [hji]
        · have hjl : (m.fs.table c).Live j := by
            rw [htable, Table.Live, Table.dir_set_ne hji] at hj
            exact hj
          have howner := hm.table.links.owner j hjl
          rw [← (Places.own_put_ne hji : (g.put i i 0).own j = g.own j), hown, hfree'] at howner
          cases howner
      · change k < blocks c 0 at hk
        omega
    · refine ⟨fun _ => ?_, fun _ => ?_, fun _ _ => Places.pos_put_self, fun _ => ?_, fun _ hpos => ?_⟩
      · simp only [hdir, hmax]
        refine ⟨by omega, fun j hj => ?_⟩
        rw [Entry.sector_newName hj]
        omega
      · change blocks c 0 = _
        rw [hzero]
        show 0 = base ((g.put i i 0).pos i) + (255 + 1) % 256
        rw [Places.pos_put_self]
        rfl
      · exact (Nat.zero_mod _).symm
      · exact absurd hpos (by simp)
    · have hne : j ≠ i := fun heq => hdead (heq ▸ Eefs.live_table.mpr hj)
      rw [htable, Table.dir_set_ne hne, Table.dir_take]
    · refine Eefs.isFile_table.mpr ?_
      show (s'.table c).Live i ∧ ((s'.table c).dir i).isListentry = false ∧
        ((s'.table c).dir i).name = name
      rw [Table.Live, hdir]
      exact ⟨Entry.deleted_newName, Entry.isListentry_newName, Entry.name_newName⟩

theorem openRead (hm : m.Sound c g) (h : ℕ) (name : Name) :
    (m.step c (.open h name .read)).2.Sound c g := by
  obtain ⟨buffer, heq, -⟩ := Eefs.findEntry_cases c m.fs name
  show (m.set h (m.fs.eepromfsOpen c name .read).2.1 false
    (m.fs.eepromfsOpen c name .read).2.2).Sound c g
  simp only [Eefs.eepromfsOpen, heq]
  split
  · exact hm.keep rfl rfl hm.markFault hm.hung hm.free
  · exact hm.keep rfl rfl hm.markFault hm.hung hm.free

/-- A write through a handle that is open for writing and has not failed. -/
theorem write_ok (hm : m.Sound c g) {h : ℕ} (hmode : (m.handle h).filemode = .write)
    (hfailed : m.failed h = false) (data : List UInt8) :
    let r := m.fs.eepromfsWrite c (m.handle h) data
    ∃ g' w, (m.step c (.write h data)).2.Sound c g' ∧ r.2.1 = w % 65536 ∧
      Written c m.fs g (m.handle h) data w r.2.2.2 g' r.2.2.1 ∧ (r.1 = .ok → w = data.length) := by
  have hread : (m.handle h).filemode ≠ .read := by simp [hmode]
  obtain ⟨g', w, hw, hwritten, hok⟩ := write_written hm.table (hm.writer h hread)
    (hm.tied h hread hfailed) hmode data
  have hprog := hwritten.progress
  refine ⟨g', w, ?_, hw, hwritten, fun h => (hok h).1⟩
  refine hm.update hprog.sound hprog.frame (fun k hk hkm => hm.apart k h hkm hread hk) ?_
    (fun _ => ⟨hprog.entry, hprog.writer, fun hf => ?_⟩) (hprog.markFault.trans hm.markFault)
    (hprog.hung.trans hm.hung) (hprog.free hm.free)
  · rw [hprog.filemode]
    exact hm.mode h
  · rw [Bool.or_eq_false_iff] at hf
    exact (hok (by simpa using hf.2)).2

theorem write_invalid (hm : m.Sound c g) {h : ℕ} (hmode : (m.handle h).filemode ≠ .write)
    (data : List UInt8) : (m.step c (.write h data)).2.Sound c g := by
  have hread : (m.handle h).filemode = .read := by
    cases hfile : (m.handle h).filemode with
    | read => rfl
    | write => exact absurd hfile hmode
    | append => exact absurd hfile (hm.mode h)
  simp only [step, Eefs.eepromfsWrite, if_pos hmode]
  exact hm.keep rfl hread hm.markFault hm.hung hm.free

/-- A read changes only the buffer, the record of its assertions and its own handle. -/
theorem read (hm : m.Sound c g) (h length : ℕ) :
    (m.step c (.read h length)).2.Sound c g := by
  by_cases hmode : (m.handle h).filemode = .read
  · simp only [step, Eefs.eepromfsRead, if_neg (not_not.mpr hmode)]
    obtain ⟨htable, hkeep, hmark, hhung, hfree⟩ := Eefs.same_readLoop (c := c)
      (min length ((m.handle h).size - (m.handle h).curOffset)) m.fs (m.handle h)
      (min length ((m.handle h).size - (m.handle h).curOffset))
    exact hm.keep htable (hkeep.trans hmode) (hmark.trans hm.markFault) (hhung.trans hm.hung)
      (hfree.symm ▸ hm.free)
  · simp only [step, Eefs.eepromfsRead, if_pos hmode]
    refine hm.update (r := (m.handle h).entry) hm.table (.refl _ _ _ hm.table.links)
      (fun k hk hkm => hm.apart k h hkm hmode hk) (hm.mode h)
      (fun _ => ⟨rfl, hm.writer h hmode, hm.tied h hmode⟩) hm.markFault hm.hung hm.free

/-- A close records the size. -/
theorem close_write (hm : m.Sound c g) {h : ℕ} (hmode : (m.handle h).filemode ≠ .read) :
    let r := m.fs.eepromfsClose c (m.handle h)
    (m.step c (.close h)).2.Sound c g ∧ (m.fs.table c).Grows g (r.2.table c) g ∧
      r.2.data c = m.fs.data c ∧ r.2.table c = (m.fs.table c).set (m.handle h).entry
        (((m.fs.table c).dir (m.handle h).entry).setSize (m.handle h).size) := by
  have hw := hm.writer h hmode
  obtain ⟨s', heq, hquiet, htable, hcount⟩ := Eefs.close_write (s := m.fs) hmode hw.entry_lt
  have hset := hw.close hm.table
  rw [← htable] at hset
  have hframe := Table.Frame.set hm.table.links hw.entryUsed
    (((m.fs.table c).dir (m.handle h).entry).setSize (m.handle h).size)
  rw [hw.ownEntry, ← htable] at hframe
  simp only [step, heq]
  refine ⟨hm.update hset.1 hframe (fun k hk hkm => hm.apart k h hkm hmode hk) (by simp)
    (fun hr => absurd rfl hr) (hquiet.markFault.trans hm.markFault) (hquiet.hung.trans hm.hung)
    (hcount ▸ hm.free), hset.2, hquiet.data, htable⟩

theorem close_read (hm : m.Sound c g) {h : ℕ} (hmode : (m.handle h).filemode = .read) :
    (m.step c (.close h)).2.Sound c g := by
  simp only [step, Eefs.close_read hmode]
  exact hm.keep rfl rfl hm.markFault hm.hung hm.free

theorem rename (hm : m.Sound c g) (oldname newname : Name) :
    let fs := (m.fs.eepromfsRename c oldname newname).2
    ({ m with fs } : Machine).Sound c g ∧ (m.fs.table c).Grows g (fs.table c) g ∧
      (m.fs.table c).SameLinks (fs.table c) ∧
      (fs.table c).usedSector = (m.fs.table c).usedSector ∧ fs.freeSectors = m.fs.freeSectors := by
  have hrenamed := Eefs.renamed_rename c m.fs oldname newname
  generalize m.fs.eepromfsRename c oldname newname = r at hrenamed ⊢
  cases hrenamed with
  | refused =>
    exact ⟨⟨hm.table, hm.writer, hm.tied, hm.mode, hm.apart, hm.markFault, hm.hung, hm.free⟩,
      ⟨fun _ _ _ h => h, fun _ _ => ⟨rfl, rfl⟩⟩,
      ⟨fun _ => rfl, fun _ => rfl, fun _ => rfl, rfl⟩, rfl, rfl⟩
  | @renamed i s' hnew hold htable hquiet hcount =>
    obtain ⟨hlive, hlist, hname⟩ := Eefs.isFile_table.mp hold
    have hmax : ((m.fs.table c).dir i).maxSectors = 12 := by
      rw [Entry.maxSectors, hlist]
      rfl
    have hsec : ∀ j < ((m.fs.table c).dir i).maxSectors,
        (((m.fs.table c).dir i).setName newname).sector j = ((m.fs.table c).dir i).sector j :=
      fun j hj => Entry.sector_setName (by omega)
    have hset := hm.table.set (i := i) (e := ((m.fs.table c).dir i).setName newname)
      Entry.deleted_setName Entry.isListentry_setName Entry.nextentry_setName (fun _ => hsec)
      (.inr fun j hj hjl hjn => hnew j (Eefs.isFile_table.mpr ⟨hj, hjl, hjn.trans Entry.name_setName⟩))
      (fun hl hll => by rw [Entry.size_setName]; exact hm.table.files.sizes i hl hll)
    have hsame : (m.fs.table c).SameLinks (s'.table c) := by
      rw [htable]
      exact .set Entry.deleted_setName Entry.isListentry_setName Entry.nextentry_setName
    rw [← htable] at hset
    refine ⟨⟨hset.1, fun h hh => (hm.writer h hh).congr hsame hset.2, fun h hh hf => ?_, hm.mode,
      hm.apart, hquiet.markFault.trans hm.markFault, hquiet.hung.trans hm.hung, hcount ▸ hm.free⟩,
      hset.2, hsame, by rw [htable]; rfl, hcount⟩
    refine (hm.tied h hh hf).congr_sectors (hm.writer h hh) hsame fun _ j hj => ?_
    rw [htable]
    by_cases heq : (m.handle h).curEntry = i
    · rw [heq] at hj ⊢
      rw [Table.dir_set_self, hsec j hj]
    · rw [Table.dir_set_ne heq]

/-- What erasing the entries of a file preserves, its deletion preserves. -/
theorem delete_rule (hm : m.Sound c g) {name : Name} {r : ℕ} (hfile : m.fs.IsFile c r name)
    {P : Eefs → Prop} (hset : ∀ s buffer, P s → P (s.setBuffer buffer))
    (hstep : ∀ s s' d, (s.table c).Sound c g → (s.table c).Head g d → g.own d = r → P s →
      Eefs.Quiet c s s' → s'.table c = (s.table c).erase d →
      s'.freeSectors = Eefs.count s.freeSectors ((s.table c).dir d).leading.length false → P s')
    (hP : P m.fs) :
    ∃ s', m.fs.eepromfsDelete c name = (.ok, s') ∧ (s'.table c).Sound c g ∧
      Eefs.Quiet c m.fs s' ∧ P s' := by
  obtain ⟨buffer, heq, ⟨-, hnone⟩ | ⟨hfound, hbuffer⟩⟩ := Eefs.findEntry_cases c m.fs name
  · exact absurd hfile (hnone r)
  · obtain ⟨hlive, hlist, hname⟩ := Eefs.isFile_table.mp hfound
    obtain ⟨hlive', hlist', hname'⟩ := Eefs.isFile_table.mp hfile
    have hr : (m.fs.findEntry c name).1 = r :=
      hm.table.files.names _ _ hlive hlive' hlist hlist' (hname.trans hname'.symm)
    rw [hr] at hbuffer hlive hlist
    have hlt := hfile.1.1
    have hent := c.entries_lt
    have hcount : (m.fs.table c).liveCount c ≤ 257 := by
      have hcard := Finset.card_filter_le (Finset.range c.entries)
        fun i => ((m.fs.table c).dir i).deleted = false
      rw [Finset.card_range] at hcard
      exact hcard.trans (by omega)
    obtain ⟨s', hs', hsound, hquiet, hP'⟩ := deleteChain_rule hset hstep
      (s := m.fs.setBuffer buffer) hm.table (.of_root hm.table.links hlive hlist)
      (hm.table.links.root r hlive hlist).1 hbuffer hm.free hcount (hset _ _ hP)
    refine ⟨s', ?_, hsound, (Eefs.quiet_buffer _).trans hquiet, hP'⟩
    simp only [Eefs.eepromfsDelete, heq, hr]
    rw [if_neg (by omega), hs']

theorem delete_none {name : Name} (h : ∀ i, ¬m.fs.IsFile c i name) :
    ∃ buffer, m.fs.eepromfsDelete c name = (.fileNotFound, m.fs.setBuffer buffer) := by
  obtain ⟨buffer, heq, ⟨h255, -⟩ | ⟨hfound, -⟩⟩ := Eefs.findEntry_cases c m.fs name
  · exact ⟨buffer, by simp [Eefs.eepromfsDelete, h255, heq]⟩
  · exact absurd hfound (h _)

theorem delete (hm : m.Sound c g) (name : Name) :
    ({ m with fs := (m.fs.eepromfsDelete c name).2 } : Machine).Sound c g := by
  by_cases hex : ∃ i, m.fs.IsFile c i name
  · obtain ⟨r, hfile⟩ := hex
    obtain ⟨s', hs', hsound, hquiet, hw, ht, hfree⟩ := hm.delete_rule hfile
      (P := fun s => (∀ h, (m.handle h).filemode ≠ .read → (m.handle h).Writer c (s.table c) g) ∧
        (∀ h, (m.handle h).filemode ≠ .read → m.failed h = false →
          (m.handle h).Tied c (s.table c) g (blocks c (m.handle h).size)) ∧ s.freeSectors < 256)
      (fun s buffer h => h)
      (fun s s' d hs hd _ hP _ htable hcnt => by
        rw [htable]
        refine ⟨fun h hh => (hP.1 h hh).erase hs.links hd,
          fun h hh hf => (hP.2.1 h hh hf).erase (hP.1 h hh) hs.links hd, ?_⟩
        rw [hcnt]
        exact Nat.mod_lt _ (by decide))
      ⟨hm.writer, hm.tied, hm.free⟩
    rw [hs']
    exact ⟨hsound, hw, ht, hm.mode, hm.apart, hquiet.markFault.trans hm.markFault,
      hquiet.hung.trans hm.hung, hfree⟩
  · obtain ⟨buffer, heq⟩ := delete_none (not_exists.mp hex)
    rw [heq]
    exact ⟨hm.table, hm.writer, hm.tied, hm.mode, hm.apart, hm.markFault, hm.hung, hm.free⟩

theorem of_blank {fs : Eefs} (hblank : Eefs.Blank c fs) (hmark : fs.markFault = false)
    (hhung : fs.hung = false) (hmode : ∀ h, (m.handle h).filemode = .read) (g : Places) :
    ({ m with fs } : Machine).Sound c g := by
  have hdead : ∀ i, ¬(fs.table c).Live i := by
    intro i hi
    rw [Table.Live, hblank.dir i] at hi
    cases hi
  have hsc : c.sectorCount < 256 := c.sectors_lt
  refine ⟨⟨⟨fun i hi => ?_, fun i hi => ?_, fun i hi => ?_, fun i hi => ?_, fun i hi => ?_,
    fun i _ hi => ?_, fun i hi => ?_, fun i hi => ?_⟩, ⟨fun i j x h => ?_, fun i j i' j' x h => ?_,
    fun i j x h => ?_, fun i hi => ?_⟩, ⟨fun i j hi => ?_, fun i hi => ?_⟩⟩,
    fun h hh => absurd (hmode h) hh, fun h hh => absurd (hmode h) hh, fun h => ?_,
    fun h h' hh => absurd (hmode h) hh, hmark, hhung, ?_⟩
  all_goals try exact absurd hi (hdead i)
  all_goals try exact absurd h.live (hdead i)
  · show (m.handle h).filemode ≠ .append
    rw [hmode h]
    simp
  · show fs.freeSectors < 256
    rw [hblank.count]
    exact hsc

end Machine.Sound

namespace Machine

/-- The calls that the round trip allows: no format, no append mode, and no write through a handle
whose last write failed. -/
def Plain (m : Machine) : Call → Prop
  | .format => False
  | .open _ _ mode => mode ≠ .append
  | .write h _ => m.failed h = false
  | _ => True

theorem sound_step {m : Machine} (hm : m.Sound c g) (a : Call) (ha : m.Plain a) :
    ∃ g', (m.step c a).2.Sound c g' := by
  cases a with
  | format => exact absurd ha id
  | «open» h name mode =>
    cases mode with
    | read => exact ⟨g, hm.openRead h name⟩
    | write =>
      obtain ⟨g', hsound, -⟩ := hm.openWrite h name
      exact ⟨g', hsound⟩
    | append => exact absurd rfl ha
  | write h data =>
    by_cases hmode : (m.handle h).filemode = .write
    · obtain ⟨g', w, hsound, -⟩ := hm.write_ok hmode ha data
      exact ⟨g', hsound⟩
    · exact ⟨g, hm.write_invalid hmode data⟩
  | read h length => exact ⟨g, hm.read h length⟩
  | close h =>
    by_cases hmode : (m.handle h).filemode = .read
    · exact ⟨g, hm.close_read hmode⟩
    · exact ⟨g, (hm.close_write hmode).1⟩
  | rename oldname newname => exact ⟨g, (hm.rename oldname newname).1⟩
  | delete name => exact ⟨g, hm.delete name⟩

theorem sound_formatted (c : Config) (s : Eefs) (g : Places) : (formatted c s).Sound c g := by
  obtain ⟨hblank, hmark, -, hhung⟩ := Eefs.format_blank c
    { s with markFault := false, readFault := false, hung := false }
  exact Sound.of_blank (m := formatted c s) hblank hmark hhung (fun _ => rfl) g

theorem sound_run (c : Config) (s : Eefs) {calls : List Call}
    (h : Meets (step c) Plain (formatted c s) calls) :
    ∃ g, (run (step c) (formatted c s) calls).2.Sound c g := by
  have halways := always_of_step (I := fun m => ∃ g, m.Sound c g)
    (fun m a ⟨g, hm⟩ ha => sound_step hm a ha)
    ⟨⟨id, id⟩, sound_formatted c s ⟨id, id⟩⟩ h
  exact halways.last

end Machine

end NoDiskEmu.Eeprom
