import NoDiskEmu.Eeprom.Runs

/-! The sector ledger: `used_sectors`, `free_sectors` and the sector numbers in the directory say the
same, as long as no file is deleted and no EEPROM formatted under a handle that writes to it. -/

namespace NoDiskEmu.Eeprom

open Library Library.Bitmap Library.Run

variable {c : Config} {s s' : Eefs} {g : Places} {m : Machine}

/-- The three copies of the ledger agree, and they are what `eepromfs_init` would compute. -/
structure Eefs.SectorLedger (c : Config) (s : Eefs) : Prop where
  used : ∀ x, x < c.sectorCount ∧ s.sectorUsed x = true ↔ ∃ i j, (s.table c).Listed i j x
  once : ∀ i j i' j' x, (s.table c).Listed i j x → (s.table c).Listed i' j' x → i = i' ∧ j = j'
  count : s.freeSectors = c.sectorCount -
    ((Finset.range c.sectorCount).filter fun x => s.sectorUsed x = true).card
  flips : s.markFault = false
  init : (s.eepromfsInit c).freeSectors = s.freeSectors ∧ (s.eepromfsInit c).markFault = false ∧
    ∀ x < c.sectorCount, (s.eepromfsInit c).sectorUsed x = s.sectorUsed x

theorem mem_listed {e : Entry} {x : ℕ} :
    x ∈ e.listed ↔ ∃ j < e.maxSectors, e.sector j = x ∧ x ≠ 255 := by
  simp only [Entry.listed, List.mem_filter, List.mem_map, List.mem_range, decide_eq_true_eq]
  constructor
  · rintro ⟨⟨j, hj, hx⟩, hne⟩
    exact ⟨j, hj, hx, hne⟩
  · rintro ⟨j, hj, hx, hne⟩
    exact ⟨⟨j, hj, hx⟩, hne⟩

theorem Eefs.mem_listed_entry {i x : ℕ} (hi : s.Live c i) :
    x ∈ (s.entry c i).listed ↔ ∃ j, (s.table c).Listed i j x := by
  have hdir := Eefs.dir_table (s := s) hi.1
  have hlive := Eefs.live_table.mpr hi
  rw [mem_listed, ← hdir]
  constructor
  · rintro ⟨j, hj, hx, hne⟩
    exact ⟨j, hlive, hj, hx, hne⟩
  · rintro ⟨j, -, hj, hx, hne⟩
    exact ⟨j, hj, hx, hne⟩

theorem Table.nodup_listed {t : Table}
    (hl : ∀ i j i' j' x, t.Listed i j x → t.Listed i' j' x → i = i' ∧ j = j') {i : ℕ}
    (hi : t.Live i) : (t.dir i).listed.Nodup := by
  have hinj : ∀ j ∈ List.range (t.dir i).maxSectors, ∀ k ∈ List.range (t.dir i).maxSectors,
      (t.dir i).sector j ≠ 255 → (t.dir i).sector j = (t.dir i).sector k → j = k := by
    intro j hj k hk hne heq
    rw [List.mem_range] at hj hk
    exact (hl i j i k _ ⟨hi, hj, rfl, hne⟩ ⟨hi, hk, heq.symm, hne⟩).2
  rw [Entry.listed, List.filter_map]
  refine List.Nodup.map_on (fun j hj k hk heq => ?_) (List.nodup_range.filter _)
  rw [List.mem_filter] at hj hk
  exact hinj j hj.1 k hk.1 (by simpa using hj.2) heq

theorem Eefs.Counted.markSectors {l : List ℕ} (h : s.Counted c) (hnodup : l.Nodup)
    (hl : ∀ x ∈ l, x < c.sectorCount ∧ s.sectorUsed x = false) :
    (s.markSectors l true).Counted c := by
  induction l generalizing s with
  | nil => exact h
  | cons x l ih =>
    rw [List.nodup_cons] at hnodup
    obtain ⟨hx, hfree⟩ := hl x (by simp)
    rw [markSectors_cons]
    refine ih (h.mark hx hfree (by rw [table_markSector]; rfl) rfl) hnodup.2 fun y hy => ?_
    obtain ⟨hlt, hfree'⟩ := hl y (by simp [hy])
    have hne : y ≠ x := fun heq => hnodup.1 (heq ▸ hy)
    exact ⟨hlt, (getBit_setBit_ne hne).trans hfree'⟩

/-- `eepromfs_init` over entries that list no sector twice: it counts, and no assertion fails. -/
theorem Eefs.foldl_initEntry_counted
    (hvalid : ∀ i j x, (s.table c).Listed i j x → x < c.sectorCount)
    (hl : ∀ i j i' j' x, (s.table c).Listed i j x → (s.table c).Listed i' j' x → i = i' ∧ j = j')
    (hclear : ∀ x < c.sectorCount, s.sectorUsed x = false) (hc : s.Counted c) (n : ℕ)
    (hn : n ≤ c.entries) :
    Quiet c s ((List.range n).foldl (initEntry c) s) ∧
      ((List.range n).foldl (initEntry c) s).Counted c := by
  induction n with
  | zero => exact ⟨.refl s, hc⟩
  | succ n ih =>
    obtain ⟨hquiet, hcounted⟩ := ih (by omega)
    obtain ⟨hmem, -, hsectors⟩ := foldl_initEntry c s n (by omega)
    rw [List.range_succ, List.foldl_append, List.foldl_cons, List.foldl_nil]
    generalize (List.range n).foldl (initEntry c) s = r at hquiet hcounted hmem hsectors ⊢
    have hentry : r.entry c n = s.entry c n := by
      funext k
      rw [entry, hmem, entry]
    simp only [initEntry, buffer_readEntry, hentry]
    cases hdel : (s.entry c n).deleted
    · rw [if_neg (by simp)]
      have hlive : s.Live c n := ⟨by omega, hdel⟩
      have hlive' := live_table.mpr hlive
      have hnodup := Table.nodup_listed hl hlive'
      rw [dir_table hlive.1] at hnodup
      have hfresh : ∀ x ∈ (s.entry c n).listed, x < c.sectorCount ∧ r.sectorUsed x = false := by
        intro x hx
        obtain ⟨j, hj⟩ := (mem_listed_entry hlive).mp hx
        have hlt := hvalid n j x hj
        refine ⟨hlt, ?_⟩
        cases hused : r.sectorUsed x
        · rfl
        · rcases (hsectors x).mp hused with h | ⟨i, hi, hil, hix⟩
          · exact absurd h (by rw [hclear x hlt]; decide)
          · obtain ⟨j', hj'⟩ := (mem_listed_entry hil).mp hix
            have hin := (hl n j i j' x hj hj').1
            omega
      have hcount' : ((r.readEntry c n).useEntry n).Counted c := hcounted.congr rfl rfl
      refine ⟨hquiet.trans ((⟨rfl, rfl, rfl, rfl⟩ : Quiet c r ((r.readEntry c n).useEntry n)).trans
        (quiet_markSectors hnodup fun x hx => (show _ = !true from (hfresh x hx).2))), hcount'.markSectors hnodup hfresh⟩
    · rw [if_pos rfl]
      exact ⟨hquiet.trans (quiet_buffer _), hcounted.congr rfl rfl⟩

theorem Eefs.sectorLedger_of_sound (hs : (s.table c).Sound c g) (hexact : (s.table c).Exact c)
    (hcounted : s.Counted c) (hmark : s.markFault = false) : s.SectorLedger c := by
  have hcount : s.freeSectors + (s.table c).usedCount c = c.sectorCount := hcounted
  have hcleartable : ∀ i, ((s.cleared c).table c).dir i = (s.table c).dir i := fun _ => rfl
  have hlisted : ∀ i j x, ((s.cleared c).table c).Listed i j x ↔ (s.table c).Listed i j x :=
    fun i j x => Table.listed_congr (hcleartable i) j x
  have hclear : ∀ x < c.sectorCount, (s.cleared c).sectorUsed x = false := fun x hx => getBit_clear hx
  obtain ⟨-, -, hsectors⟩ := foldl_initEntry c (s.cleared c) c.entries le_rfl
  -- the bits that the loop sets are those of the listed sectors
  have hused : ∀ x < c.sectorCount, (s.eepromfsInit c).sectorUsed x = s.sectorUsed x := by
    intro x hx
    rw [Bool.eq_iff_iff, eepromfsInit_eq, hsectors x, hclear x hx]
    simp only [Bool.false_eq_true, false_or]
    constructor
    · rintro ⟨i, -, hi, hmem⟩
      obtain ⟨j, hj⟩ := (mem_listed_entry hi).mp hmem
      exact (hs.listing.valid i j x ((hlisted i j x).mp hj)).2
    · intro hu
      obtain ⟨i, j, hij⟩ := hexact x hx hu
      have hi : (s.cleared c).Live c i := live_table.mp ((hlisted i j x).mpr hij).live
      exact ⟨i, hi.1, hi, (mem_listed_entry hi).mpr ⟨j, (hlisted i j x).mpr hij⟩⟩
  have hinit : Quiet c (s.cleared c) (s.eepromfsInit c) ∧ (s.eepromfsInit c).Counted c := by
    refine foldl_initEntry_counted
      (fun i j x h => (hs.listing.valid i j x ((hlisted i j x).mp h)).1)
      (fun i j i' j' x h h' => hs.listing.distinct i j i' j' x ((hlisted i j x).mp h)
        ((hlisted i' j' x).mp h')) hclear ?_ c.entries le_rfl
    have hzero : ((s.cleared c).table c).usedCount c = 0 := by
      rw [Table.usedCount, Finset.card_eq_zero]
      refine Finset.filter_false_of_mem fun x hx => ?_
      rw [← sectorUsed_table, hclear x (Finset.mem_range.mp hx)]
      decide
    rw [Counted, hzero]
    rfl
  refine ⟨fun x => ⟨?_, ?_⟩, hs.listing.distinct, ?_, hmark, ?_, ?_, hused⟩
  · rintro ⟨hx, hu⟩
    exact hexact x hx hu
  · rintro ⟨i, j, hij⟩
    exact hs.listing.valid i j x hij
  · change s.freeSectors = c.sectorCount - (s.table c).usedCount c
    omega
  · have hinitcount : (s.eepromfsInit c).freeSectors + ((s.eepromfsInit c).table c).usedCount c =
        c.sectorCount := hinit.2
    have hsame : ((s.eepromfsInit c).table c).usedCount c = (s.table c).usedCount c := by
      rw [Table.usedCount, Table.usedCount]
      congr 1
      refine Finset.filter_congr fun x hx => ?_
      rw [← sectorUsed_table, ← sectorUsed_table, hused x (Finset.mem_range.mp hx)]
    omega
  · exact hinit.1.markFault.trans hmark

/-- What a run keeps: the ledger, and that every handle for writing has its file. -/
structure Machine.Ledgered (c : Config) (m : Machine) (g : Places) : Prop where
  sound : m.Sound c g
  exact : (m.fs.table c).Exact c
  counted : m.fs.Counted c
  alive : ∀ h, (m.handle h).filemode ≠ .read → (m.fs.table c).Live (m.handle h).entry

/-- The calls that the ledger allows: no append mode, no write through a handle whose last write
failed, and no format and no deletion of a file under a handle that is open for writing. -/
def Machine.Orderly (c : Config) (m : Machine) : Call → Prop
  | .format => ∀ h, (m.handle h).filemode = .read
  | .open _ _ mode => mode ≠ .append
  | .write h _ => m.failed h = false
  | .delete name => ∀ h, (m.handle h).filemode ≠ .read → ¬m.fs.IsFile c (m.handle h).entry name
  | _ => True

namespace Machine.Ledgered

theorem sectorLedger (hm : m.Ledgered c g) : m.fs.SectorLedger c :=
  Eefs.sectorLedger_of_sound hm.sound.table hm.exact hm.counted hm.sound.markFault

/-- The ledger after a call that marks no sector. -/
theorem exact_grow (hm : m.Ledgered c g) {fs : Eefs} {g' : Places}
    (hgrows : (m.fs.table c).Grows g (fs.table c) g')
    (hused : (fs.table c).usedSector = (m.fs.table c).usedSector) : (fs.table c).Exact c := by
  intro x hx hu
  rw [hused] at hu
  obtain ⟨i, j, hij⟩ := hm.exact x hx hu
  exact ⟨i, j, hgrows.listed i j x hij⟩

theorem alive_set {h : ℕ} {fh : Handle} {failed : Bool} {fs : Eefs}
    (hself : fh.filemode ≠ .read → (fs.table c).Live fh.entry)
    (hothers : ∀ k, (m.handle k).filemode ≠ .read → (fs.table c).Live (m.handle k).entry) (k : ℕ)
    (hk : ((m.set h fh failed fs).handle k).filemode ≠ .read) :
    (fs.table c).Live ((m.set h fh failed fs).handle k).entry := by
  by_cases heq : k = h
  · subst heq
    simp only [Machine.set, Function.update_self] at hk ⊢
    exact hself hk
  · simp only [Machine.set, Function.update_of_ne heq] at hk ⊢
    exact hothers k hk

theorem openWrite (hm : m.Ledgered c g) (h : ℕ) (name : Name) :
    ∃ g', (m.step c (.open h name .write)).2.Ledgered c g' := by
  obtain ⟨g', hsound, hgrows, -, hdir, hused, hcount, hok⟩ := hm.sound.openWrite h name
  refine ⟨g', hsound, hm.exact_grow hgrows hused, hm.counted.congr hused hcount,
    alive_set (fun hmode => ?_) fun k hk => ?_⟩
  · by_cases hst : (m.fs.eepromfsOpen c name .write).1 = .ok
    · exact Eefs.live_table.mpr (hok hst).1.1
    · have hopened := Eefs.opened_write c m.fs name
      generalize m.fs.eepromfsOpen c name .write = r at hopened hst hmode
      cases hopened with
      | fileExists => exact absurd rfl hmode
      | dirFull => exact absurd rfl hmode
      | created => exact absurd rfl hst
  · have hlive := hm.alive k hk
    rw [Table.Live, hdir _ (Eefs.live_table.mp hlive)]
    exact hlive

theorem openRead (hm : m.Ledgered c g) (h : ℕ) (name : Name) :
    (m.step c (.open h name .read)).2.Ledgered c g := by
  have hsound := hm.sound.openRead h name
  obtain ⟨buffer, heq, -⟩ := Eefs.findEntry_cases c m.fs name
  have hread : (m.fs.eepromfsOpen c name .read).2.1.filemode = .read ∧
      ∃ b, (m.fs.eepromfsOpen c name .read).2.2 = m.fs.setBuffer b := by
    simp only [Eefs.eepromfsOpen, heq]
    split
    · exact ⟨rfl, _, rfl⟩
    · exact ⟨rfl, _, rfl⟩
  obtain ⟨hmode, b, hfs⟩ := hread
  refine ⟨hsound, ?_, ?_, alive_set (fun hr => absurd hmode hr) fun k hk => ?_⟩
  · rw [Machine.step, hfs]
    exact hm.exact
  · rw [Machine.step, hfs]
    exact hm.counted
  · rw [hfs]
    exact hm.alive k hk

theorem write (hm : m.Ledgered c g) {h : ℕ} (hfailed : m.failed h = false) (data : List UInt8) :
    ∃ g', (m.step c (.write h data)).2.Ledgered c g' := by
  by_cases hmode : (m.handle h).filemode = .write
  · have hread : (m.handle h).filemode ≠ .read := by simp [hmode]
    obtain ⟨g', w, hsound, -, hwritten, -⟩ := hm.sound.write_ok hmode hfailed data
    have hprog := hwritten.progress
    refine ⟨g', hsound, hprog.exact (hm.alive h hread) hm.exact, hprog.counted hm.counted,
      alive_set (fun _ => ?_) fun k hk => hprog.live _ (hm.alive k hk)⟩
    rw [hprog.entry]
    exact hprog.live _ (hm.alive h hread)
  · refine ⟨g, hm.sound.write_invalid hmode data, ?_, ?_, ?_⟩
    · simp only [Machine.step, Eefs.eepromfsWrite, if_pos hmode]
      exact hm.exact
    · simp only [Machine.step, Eefs.eepromfsWrite, if_pos hmode]
      exact hm.counted
    · simp only [Machine.step, Eefs.eepromfsWrite, if_pos hmode]
      exact alive_set (hm.alive h) hm.alive

theorem read (hm : m.Ledgered c g) (h length : ℕ) :
    (m.step c (.read h length)).2.Ledgered c g := by
  have hsame : (m.fs.eepromfsRead c (m.handle h) length).2.2.2.table c = m.fs.table c ∧
      (m.fs.eepromfsRead c (m.handle h) length).2.2.2.freeSectors = m.fs.freeSectors ∧
      ((m.fs.eepromfsRead c (m.handle h) length).2.2.1.filemode ≠ .read →
        (m.fs.eepromfsRead c (m.handle h) length).2.2.1 = m.handle h) := by
    by_cases hmode : (m.handle h).filemode = .read
    · simp only [Eefs.eepromfsRead, if_neg (not_not.mpr hmode)]
      obtain ⟨htable, hkeep, -, -, hfree⟩ := Eefs.same_readLoop (c := c)
        (min length ((m.handle h).size - (m.handle h).curOffset)) m.fs (m.handle h)
        (min length ((m.handle h).size - (m.handle h).curOffset))
      exact ⟨htable, hfree, fun hr => absurd (hkeep.trans hmode) hr⟩
    · rw [Eefs.eepromfsRead, if_pos hmode]
      exact ⟨rfl, rfl, fun _ => rfl⟩
  obtain ⟨htable, hfree, hhandle⟩ := hsame
  refine ⟨hm.sound.read h length, ?_, ?_, alive_set (fun hr => ?_) fun k hk => ?_⟩
  · show Table.Exact c (Eefs.table c _)
    rw [show (m.step c (.read h length)).2.fs.table c = m.fs.table c from htable]
    exact hm.exact
  · exact hm.counted.congr (congrArg Table.usedSector htable) hfree
  · have heq := hhandle hr
    rw [heq] at hr ⊢
    rw [htable]
    exact hm.alive h hr
  · rw [htable]
    exact hm.alive k hk

theorem close (hm : m.Ledgered c g) (h : ℕ) : (m.step c (.close h)).2.Ledgered c g := by
  by_cases hmode : (m.handle h).filemode = .read
  · refine ⟨hm.sound.close_read hmode, ?_, ?_, alive_set (fun hr => absurd rfl hr) fun k hk => ?_⟩
    · simp only [Machine.step, Eefs.close_read hmode]
      exact hm.exact
    · simp only [Machine.step, Eefs.close_read hmode]
      exact hm.counted
    · rw [Eefs.close_read hmode]
      exact hm.alive k hk
  · have hw := hm.sound.writer h hmode
    obtain ⟨hsound, hgrows, -, htable⟩ := hm.sound.close_write hmode
    obtain ⟨s', heq, -, -, hcount⟩ := Eefs.close_write (s := m.fs) hmode hw.entry_lt
    have hused : ((m.fs.eepromfsClose c (m.handle h)).2.table c).usedSector =
        (m.fs.table c).usedSector := by
      rw [htable]
      rfl
    refine ⟨hsound, hm.exact_grow hgrows hused, hm.counted.congr hused ?_,
      alive_set (fun hr => absurd rfl hr) fun k hk => ?_⟩
    · simp only [Machine.step, heq]
      exact hcount
    · have hlive := hm.alive k hk
      rw [htable, Table.Live]
      by_cases hki : (m.handle k).entry = (m.handle h).entry
      · rw [hki] at hlive ⊢
        rw [Table.dir_set_self, Entry.deleted_setSize]
        exact hlive
      · rw [Table.dir_set_ne hki]
        exact hlive

theorem rename (hm : m.Ledgered c g) (oldname newname : Name) :
    (m.step c (.rename oldname newname)).2.Ledgered c g := by
  obtain ⟨hsound, hgrows, hlinks, hused, hcount⟩ := hm.sound.rename oldname newname
  exact ⟨hsound, hm.exact_grow hgrows hused, hm.counted.congr hused hcount,
    fun k hk => (hlinks.live _).mpr (hm.alive k hk)⟩

/-- Erasing an entry frees the sectors that it lists. -/
theorem exact_erase {t : Table} (hs : t.Sound c g) (hexact : t.Exact c) {d : ℕ} (hd : t.Live d) :
    (t.erase d).Exact c := by
  intro x hx hu
  change (if x ∈ (t.dir d).leading then false else t.usedSector x) = true at hu
  have hmem : x ∉ (t.dir d).leading := by
    intro hmem
    rw [if_pos hmem] at hu
    cases hu
  rw [if_neg hmem] at hu
  obtain ⟨i, j, hij⟩ := hexact x hx hu
  refine ⟨i, j, (Table.listed_erase i j x).mpr ⟨hij, ?_⟩⟩
  rintro rfl
  exact hmem ((hs.listing.mem_leading hd).mpr ⟨j, hij⟩)

theorem counted_erase (hs : (s.table c).Sound c g) (hc : s.Counted c) {d : ℕ}
    (hd : (s.table c).Live d) (htable : s'.table c = (s.table c).erase d)
    (hcount : s'.freeSectors = Eefs.count s.freeSectors ((s.table c).dir d).leading.length false) :
    s'.Counted c := by
  have hsc : c.sectorCount < 256 := c.sectors_lt
  have hsum : (s'.table c).usedCount c + ((s.table c).dir d).leading.length =
      (s.table c).usedCount c := Table.usedCount_markAll (hs.listing.nodup_leading hd) (fun x hx => by
      obtain ⟨j, hj⟩ := (hs.listing.mem_leading hd).mp hx
      exact hs.listing.valid d j x hj) (fun x => by rw [htable]; rfl)
  have hc' : s.freeSectors + (s.table c).usedCount c = c.sectorCount := hc
  rw [Eefs.count, if_neg (by decide)] at hcount
  rw [Eefs.Counted, hcount]
  omega

theorem delete (hm : m.Ledgered c g) {name : Name} (ha : m.Orderly c (.delete name)) :
    (m.step c (.delete name)).2.Ledgered c g := by
  have hsound := hm.sound.delete name
  by_cases hex : ∃ i, m.fs.IsFile c i name
  · obtain ⟨r, hfile⟩ := hex
    obtain ⟨s', hs', -, -, hexact, hcounted, halive⟩ := hm.sound.delete_rule hfile
      (P := fun s => (s.table c).Exact c ∧ s.Counted c ∧
        ∀ h, (m.handle h).filemode ≠ .read → (s.table c).Live (m.handle h).entry)
      (fun s buffer h => h)
      (fun s s' d hs hd hown hP _ htable hcnt => by
        refine ⟨?_, counted_erase hs hP.2.1 hd.live htable hcnt, fun h hh => ?_⟩
        · rw [htable]
          exact exact_erase hs hP.1 hd.live
        · rw [htable]
          refine Table.live_erase.mpr ⟨hP.2.2 h hh, fun heq => ha h hh ?_⟩
          have hentry := (hm.sound.writer h hh).ownEntry
          rw [heq, hown] at hentry
          rw [heq, ← hentry]
          exact hfile)
      ⟨hm.exact, hm.counted, hm.alive⟩
    have hfs : (m.step c (.delete name)).2.fs = s' := congrArg Prod.snd hs'
    exact ⟨hsound, hfs.symm ▸ hexact, hfs.symm ▸ hcounted, hfs.symm ▸ halive⟩
  · obtain ⟨buffer, heq⟩ := Machine.Sound.delete_none (not_exists.mp hex)
    have hfs : (m.step c (.delete name)).2.fs = m.fs.setBuffer buffer := congrArg Prod.snd heq
    exact ⟨hsound, hfs.symm ▸ hm.exact, hfs.symm ▸ hm.counted, hfs.symm ▸ hm.alive⟩

theorem of_blank {fs : Eefs} (hblank : Eefs.Blank c fs) (hmark : fs.markFault = false)
    (hhung : fs.hung = false) (hmode : ∀ h, (m.handle h).filemode = .read) (g : Places) :
    ({ m with fs } : Machine).Ledgered c g := by
  refine ⟨.of_blank hblank hmark hhung hmode g, fun x hx hu => ?_, ?_, fun h hh => absurd (hmode h) hh⟩
  · rw [← Eefs.sectorUsed_table, hblank.sectors x hx] at hu
    cases hu
  · have hzero : (fs.table c).usedCount c = 0 := by
      rw [Table.usedCount, Finset.card_eq_zero]
      refine Finset.filter_false_of_mem fun x hx => ?_
      rw [← Eefs.sectorUsed_table, hblank.sectors x (Finset.mem_range.mp hx)]
      decide
    show fs.freeSectors + (fs.table c).usedCount c = c.sectorCount
    rw [hzero, hblank.count]
    rfl

theorem step (hm : m.Ledgered c g) (a : Call) (ha : m.Orderly c a) :
    ∃ g', (m.step c a).2.Ledgered c g' := by
  cases a with
  | format =>
    obtain ⟨hblank, hmark, -, hhung⟩ := Eefs.format_blank c m.fs
    exact ⟨g, .of_blank hblank (hmark.trans hm.sound.markFault) (hhung.trans hm.sound.hung) ha g⟩
  | «open» h name mode =>
    cases mode with
    | read => exact ⟨g, hm.openRead h name⟩
    | write => exact hm.openWrite h name
    | append => exact absurd rfl ha
  | write h data => exact hm.write ha data
  | read h length => exact ⟨g, hm.read h length⟩
  | close h => exact ⟨g, hm.close h⟩
  | rename oldname newname => exact ⟨g, hm.rename oldname newname⟩
  | delete name => exact ⟨g, hm.delete ha⟩

theorem formatted (c : Config) (s : Eefs) : (Machine.formatted c s).Ledgered c ⟨id, id⟩ := by
  obtain ⟨hblank, hmark, -, hhung⟩ := Eefs.format_blank c
    { s with markFault := false, readFault := false, hung := false }
  exact of_blank (m := Machine.formatted c s) hblank hmark hhung (fun _ => rfl) _

end Machine.Ledgered

namespace Machine

/-- The ledger is right in every state that an orderly run from a format on reaches. -/
theorem sectorLedger_run (c : Config) (s : Eefs) (calls : List Call)
    (h : Meets (step c) (Orderly c) (formatted c s) calls) :
    Always (step c) (fun m => m.fs.SectorLedger c ∧ m.fs.hung = false) (formatted c s) calls := by
  have halways := always_of_step (I := fun m => ∃ g, m.Ledgered c g)
    (fun m a ⟨g, hm⟩ ha => hm.step a ha) ⟨_, Ledgered.formatted c s⟩ h
  exact halways.mono fun m ⟨g, hm⟩ => ⟨hm.sectorLedger, hm.sound.hung⟩

/-- A run with a format, a new file and a write to it. -/
theorem sectorLedger_newFile :
    Always (step Config.avr) (fun m => m.fs.SectorLedger Config.avr ∧ m.fs.hung = false)
      (formatted Config.avr ⟨fun _ => 0, fun _ => 0, fun _ => 0, 0, fun _ => 0, false, false, false⟩)
      [.format, .open 0 (fun _ => 65) .write, .write 0 [1, 2, 3], .close 0] :=
  sectorLedger_run _ _ _ ⟨fun _ => rfl, by simp [Orderly], rfl, trivial, trivial⟩

/-- A write through a handle whose file is gone marks a sector that no entry in use lists. -/
theorem not_sectorLedger_write {fs : Eefs} (hblank : Eefs.Blank c fs) {fh : Handle}
    (hcur : fh.curEntry < c.entries) (hsindex : fh.curSindex = 255) (hoffset : fh.curSoffset = 0)
    (hsector0 : fh.curSector < c.sectorCount) (hmode : fh.filemode = .write) :
    ¬(fs.eepromfsWrite c fh [1]).2.2.2.SectorLedger c := by
  have hdead : ∀ j, ((fs.table c).dir j).deleted = true := by
    intro j
    rw [hblank.dir j]
    rfl
  have hmax := ((fs.table c).dir fh.curEntry).maxSectors_pos
  have hadded := Eefs.added_addSector c fs hcur
  rw [Eefs.eepromfsWrite, if_neg (by simpa using hmode)]
  simp only [Eefs.writeLoop, List.length_singleton]
  rw [if_neg (by simp), if_pos hoffset]
  generalize fs.addSector c fh = r at hadded ⊢
  have hscan := Eefs.nextFreeSector_cases c fs hsector0
  cases hadded with
  | hung hnone =>
    rcases hscan with ⟨h255, -⟩ | ⟨y, -, -, hsome⟩
    · exact absurd (hnone.symm.trans h255) (by simp)
    · exact absurd (hnone.symm.trans hsome) (by simp)
  | diskFull hfull =>
    have hsc : c.sectorCount < 256 := c.sectors_lt
    rcases hscan with ⟨-, hused⟩ | ⟨y, hy, -, hsome⟩
    · exact absurd (hused 0 c.sectors_pos) (by rw [hblank.sectors 0 c.sectors_pos]; decide)
    · have heq := Option.some.inj (hfull.symm.trans hsome)
      omega
  | dirFull _ _ hfull =>
    exact absurd (hfull 0 c.entries_pos) (by rw [hblank.entries 0 c.entries_pos]; decide)
  | @recorded sector s' hsome hsector hlt htable =>
    intro hledger
    rw [if_neg (by simp)] at hledger
    have hsc : c.sectorCount < 256 := c.sectors_lt
    have hmaxle := ((fs.table c).dir fh.curEntry).maxSectors_le
    -- the table after the call
    have hused := hledger.used sector
    simp only [Eefs.writeChunk, Eefs.sectorUsed_table (c := c), Eefs.table_writeData, htable] at hused
    have hx : sector < c.sectorCount := by
      rcases hscan with ⟨h255, -⟩ | ⟨y, hy, -, hs⟩
      · exact absurd (Option.some.inj (hsome.symm.trans h255)) hsector
      · obtain rfl := Option.some.inj (hsome.symm.trans hs)
        exact hy
    obtain ⟨j, k, hjk⟩ := hused.mp ⟨hx, by simp⟩
    have hlive := hjk.live
    rw [Table.Live] at hlive
    by_cases hji : j = fh.curEntry
    · rw [hji, Table.dir_set_self, Entry.deleted_setSector (by omega), hdead] at hlive
      cases hlive
    · rw [Table.dir_set_ne hji, Table.dir_mark, hdead] at hlive
      cases hlive
  | extended _ _ _ _ hle =>
    rw [hsindex] at hle
    omega

/-- A format under a handle that is open for writing. -/
theorem not_sectorLedger_format (c : Config) (s : Eefs) (name : Name) :
    ¬(run (step c) (formatted c s) [.open 0 name .write, .format, .write 0 [1]]).2.fs.SectorLedger
      c := by
  have hblank : Eefs.Blank c (formatted c s).fs := (Eefs.format_blank c _).1
  obtain ⟨i, s', hi, -, heq⟩ := hblank.open_write name
  show ¬(((((formatted c s).fs.eepromfsOpen c name .write).2.2.eepromfsFormat c).eepromfsWrite c
    ((formatted c s).fs.eepromfsOpen c name .write).2.1 [1]).2.2.2).SectorLedger c
  rw [heq]
  exact not_sectorLedger_write (Eefs.format_blank c _).1 hi rfl rfl c.sectors_pos rfl

theorem sectorLedger_broken : ¬(run (step Config.avr)
    (formatted Config.avr ⟨fun _ => 0, fun _ => 0, fun _ => 0, 0, fun _ => 0, false, false, false⟩)
    [.open 0 (fun _ => 65) .write, .format, .write 0 [1]]).2.fs.SectorLedger Config.avr :=
  not_sectorLedger_format Config.avr _ _

end Machine

end NoDiskEmu.Eeprom
