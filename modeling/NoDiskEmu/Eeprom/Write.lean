import NoDiskEmu.Eeprom.Handles

/-! What `eepromfs_write` does to a well-formed directory, sector by sector. -/

namespace NoDiskEmu.Eeprom

variable {c : Config} {s s' : Eefs} {g g' : Places} {fh fh' : Handle}

/-- The directory and the handle after a part of a write, against those before. -/
structure Progress (c : Config) (s : Eefs) (g : Places) (fh : Handle) (s' : Eefs) (g' : Places)
    (fh' : Handle) : Prop where
  sound : (s'.table c).Sound c g'
  frame : (s.table c).Frame fh.entry g (s'.table c) g'
  grows : (s.table c).Grows g (s'.table c) g'
  live : ∀ i, (s.table c).Live i → (s'.table c).Live i
  dead : ∀ i, (s.table c).usedEntry i = true → (s'.table c).Live i → (s.table c).Live i
  files : ∀ i, (s.table c).Live i → ((s.table c).dir i).isListentry = false →
    ((s'.table c).dir i).isListentry = false ∧
      ((s'.table c).dir i).name = ((s.table c).dir i).name ∧
      ((s'.table c).dir i).size = ((s.table c).dir i).size
  writer : fh'.Writer c (s'.table c) g'
  entry : fh'.entry = fh.entry
  filemode : fh'.filemode = fh.filemode
  markFault : s'.markFault = s.markFault
  readFault : s'.readFault = s.readFault
  hung : s'.hung = s.hung
  free : s.freeSectors < 256 → s'.freeSectors < 256
  exact : (s.table c).Live fh.entry → (s.table c).Exact c → (s'.table c).Exact c
  counted : s.Counted c → s'.Counted c

theorem Progress.trans {s₁ s₂ s₃ : Eefs} {g₁ g₂ g₃ : Places} {fh₁ fh₂ fh₃ : Handle}
    (h : Progress c s₁ g₁ fh₁ s₂ g₂ fh₂) (h' : Progress c s₂ g₂ fh₂ s₃ g₃ fh₃) :
    Progress c s₁ g₁ fh₁ s₃ g₃ fh₃ where
  sound := h'.sound
  frame := h.frame.trans (h.entry ▸ h'.frame)
  grows := h.grows.trans h'.grows h.live
  live i hi := h'.live i (h.live i hi)
  dead i hi hlive := h.dead i hi (h'.dead i (h.frame.used i hi).1 hlive)
  files i hi hlist := by
    obtain ⟨hl, hn, hz⟩ := h.files i hi hlist
    obtain ⟨hl', hn', hz'⟩ := h'.files i (h.live i hi) hl
    exact ⟨hl', hn'.trans hn, hz'.trans hz⟩
  writer := h'.writer
  entry := h'.entry.trans h.entry
  filemode := h'.filemode.trans h.filemode
  markFault := h'.markFault.trans h.markFault
  readFault := h'.readFault.trans h.readFault
  hung := h'.hung.trans h.hung
  free hlt := h'.free (h.free hlt)
  exact hlive hexact := h'.exact (h.entry ▸ h.live _ hlive) (h.exact hlive hexact)
  counted hc := h'.counted (h.counted hc)

theorem Progress.refl (hs : (s.table c).Sound c g) (hw : fh.Writer c (s.table c) g) :
    Progress c s g fh s g fh where
  sound := hs
  frame := .refl _ _ _ hs.links
  grows := ⟨fun _ _ _ h => h, fun _ _ => ⟨rfl, rfl⟩⟩
  live _ h := h
  dead _ _ h := h
  files _ _ h := ⟨h, rfl, rfl⟩
  writer := hw
  entry := rfl
  filemode := rfl
  markFault := rfl
  readFault := rfl
  hung := rfl
  free h := h
  exact _ h := h
  counted h := h

/-- The handle after the number of a new sector was written to its current entry. -/
theorem recorded_progress {sector : ℕ} (hs : (s.table c).Sound c g) (hw : fh.Writer c (s.table c) g)
    {n : ℕ} (ht : fh.Tied c (s.table c) g n) (hsector : sector < c.sectorCount)
    (hfree : s.sectorUsed sector = false)
    (hlt : (fh.curSindex + 1) % 256 < ((s.table c).dir fh.curEntry).maxSectors)
    (htable : s'.table c = ((s.table c).mark sector true).set fh.curEntry
      (((s.table c).dir fh.curEntry).setSector ((fh.curSindex + 1) % 256) sector))
    (hquiet : Eefs.Quiet c s s') (hcount : s'.freeSectors = (s.freeSectors + 255) % 256) :
    Progress c s g fh s' g
        { fh with curSector := sector, curSindex := (fh.curSindex + 1) % 256 } ∧
      Handle.Tied c (s'.table c) g
        { fh with curSector := sector, curSindex := (fh.curSindex + 1) % 256 } (n + 1) := by
  have hmaxle := ((s.table c).dir fh.curEntry).maxSectors_le
  have hsc : c.sectorCount < 256 := c.sectors_lt
  have hmod : ((fh.curSindex + 1) % 256 + 1) % 256 = (fh.curSindex + 1) % 256 + 1 :=
    Nat.mod_eq_of_lt (by omega)
  have hframe : (s.table c).Frame fh.entry g (s'.table c) g := by
    have hset := Table.Frame.set (hs.links.congr (Table.SameLinks.mark sector true))
      (i := fh.curEntry) hw.curEntryUsed
      (((s.table c).dir fh.curEntry).setSector ((fh.curSindex + 1) % 256) sector)
    rw [hw.ownCurEntry] at hset
    rw [htable]
    exact (Table.Frame.mark hs.links _ sector true).trans hset
  have hsame : Table.SameLinks (s.table c) (s'.table c) := by
    rw [htable]
    exact (Table.SameLinks.mark sector true).trans (.set (Entry.deleted_setSector (by omega))
      (Entry.isListentry_setSector (by omega)) (Entry.nextentry_setSector (by omega)))
  obtain ⟨hsound, hgrows⟩ := hs.record hlt hsector hfree
    (fun hlive => by
      by_contra hne
      have := ((ht.filled hlive).2 _ hlt).mp hne
      omega)
    (fun hlive k hk => ⟨_, hlive, by omega, rfl, ((ht.filled hlive).2 k (by omega)).mpr hk⟩)
  rw [← htable] at hsound hgrows
  refine ⟨⟨hsound, hframe, hgrows, fun i hi => (hsame.live i).mpr hi,
    fun i _ hi => (hsame.live i).mp hi, fun i _ hlist => ?_, ⟨hw.entry_lt, hw.curEntry_lt, ?_,
    ?_, hw.ownEntry, hw.ownCurEntry, ?_, ?_, ?_, hsector, hw.curSoffset_lt, hw.size_lt, ?_⟩, rfl, rfl,
    hquiet.markFault, hquiet.readFault, hquiet.hung, fun _ => by omega, ?_, ?_⟩, ⟨?_, ?_, ?_, ?_, ?_⟩⟩
  · refine ⟨(hsame.isListentry i).trans hlist, ?_⟩
    rw [htable]
    by_cases hi : i = fh.curEntry
    · have hlt12 : (fh.curSindex + 1) % 256 < 12 := by
        rwa [← hi, Entry.maxSectors, hlist] at hlt
      rw [hi, Table.dir_set_self]
      exact ⟨Entry.name_setSector hlt12, Entry.size_setSector (by omega)⟩
    · rw [Table.dir_set_ne hi]
      exact ⟨rfl, rfl⟩
  · exact (congrFun hsame.usedEntry _).trans hw.entryUsed
  · exact (congrFun hsame.usedEntry _).trans hw.curEntryUsed
  · intro hlive
    exact (hsame.isListentry _).trans (hw.name ((hsame.live _).mp hlive))
  · exact fun i hi hown => hw.last i ((hsame.live i).mp hi) hown
  · exact fun hlive => (hsame.live _).mpr (hw.curEntryLive ((hsame.live _).mp hlive))
  · exact fun hlive => hgrows.holds (hw.holds ((hsame.live _).mp hlive))
  · intro hlive hexact x hx hused
    by_cases heq : x = sector
    · refine ⟨fh.curEntry, (fh.curSindex + 1) % 256, ?_⟩
      rw [htable, heq]
      refine (Table.listed_record hlt (by omega) (fun hl => ?_) _ _ _).mpr
        (.inr ⟨hw.curEntryLive hlive, rfl, rfl, rfl⟩)
      by_contra hne
      have := ((ht.filled hl).2 _ hlt).mp hne
      omega
    · have hold : (s.table c).usedSector x = true := by
        rw [htable] at hused
        exact (Table.usedSector_mark_ne heq).symm.trans hused
      obtain ⟨i, j, hij⟩ := hexact x hx hold
      exact ⟨i, j, hgrows.listed i j x hij⟩
  · intro hc
    exact hc.mark hsector hfree (by rw [htable]; rfl) hcount
  · intro hlive
    have hlive' := (hsame.live _).mp hlive
    obtain ⟨-, hfilled⟩ := ht.filled hlive'
    simp only [hmod]
    rw [Entry.maxSectors_eq_of_flags (hsame.isListentry _)]
    refine ⟨hlt, fun j hj => ?_⟩
    rw [htable, Table.dir_set_self]
    by_cases heq : j = (fh.curSindex + 1) % 256
    · subst heq
      rw [Entry.sector_setSector_self (by omega)]
      constructor <;> omega
    · rw [Entry.sector_setSector_ne (by omega) (by omega) heq, hfilled j hj]
      omega
  · intro hlive
    have hcount := ht.count ((hsame.live _).mp hlive)
    simp only [hmod]
    omega
  · intro _ hzero
    simp only [hmod] at hzero
    omega
  · exact fun hlive => ht.offset ((hsame.live _).mp hlive)
  · intro hlive _
    simp only [hmod]
    rw [htable, Table.dir_set_self, Nat.add_sub_cancel, Entry.sector_setSector_self (by omega)]

/-- The handle after a new list entry with a new sector was linked to its current entry. -/
theorem extended_progress {sector m : ℕ} (hs : (s.table c).Sound c g)
    (hw : fh.Writer c (s.table c) g) {n : ℕ} (ht : fh.Tied c (s.table c) g n)
    (hsector : sector < c.sectorCount) (hfree : s.sectorUsed sector = false) (hm : m < c.entries)
    (hfreem : s.entryUsed m = false)
    (hle : ((s.table c).dir fh.curEntry).maxSectors ≤ (fh.curSindex + 1) % 256)
    (htable : s'.table c = ((((s.table c).take m).set fh.curEntry
      (((s.table c).dir fh.curEntry).setNextentry m)).mark sector true).set m
        (Entry.newList.setSector 0 sector))
    (hquiet : Eefs.Quiet c s s') (hcount : s'.freeSectors = (s.freeSectors + 255) % 256) :
    ∃ g', Progress c s g fh s' g'
        { fh with curSector := sector, curEntry := m, curSindex := 0 } ∧
      Handle.Tied c (s'.table c) g'
        { fh with curSector := sector, curEntry := m, curSindex := 0 } (n + 1) := by
  have hsc : c.sectorCount < 256 := c.sectors_lt
  have hownUsed : (s.table c).usedEntry (g.own fh.curEntry) = true := by
    rw [hw.ownCurEntry]
    exact hw.entryUsed
  have hfull : (s.table c).Live fh.curEntry →
      ((s.table c).dir fh.curEntry).maxSectors = (fh.curSindex + 1) % 256 ∧
        ∀ j < ((s.table c).dir fh.curEntry).maxSectors, ∃ x, (s.table c).Listed fh.curEntry j x := by
    intro hlive
    obtain ⟨hmax, hfilled⟩ := ht.filled hlive
    exact ⟨by omega, fun j hj => ⟨_, hlive, hj, rfl, (hfilled j hj).mpr (by omega)⟩⟩
  obtain ⟨hsound, hgrows⟩ := hs.extend hm hfreem hw.curEntryUsed hownUsed
    (fun j hj hown => hw.last j hj (hown.trans hw.ownCurEntry))
    (fun hlive => hw.curEntryLive (hw.ownCurEntry ▸ hlive)) hsector hfree
    (fun hlive => (hfull hlive).2)
  have hframe := @Table.Frame.extend c _ g hs.links _ _ sector hw.curEntryUsed hfreem
    (((s.table c).dir fh.curEntry).setNextentry m) (Entry.newList.setSector 0 sector)
  rw [hw.ownCurEntry] at hframe
  rw [hw.ownCurEntry] at hsound hgrows
  rw [← htable] at hsound hgrows hframe
  have hnew : ∀ i, (s.table c).usedEntry i = true → i ≠ m := by
    rintro i hi rfl
    rw [show (s.table c).usedEntry i = s.entryUsed i from rfl, hfreem] at hi
    cases hi
  have hentry := hnew _ hw.entryUsed
  have hdirm : (s'.table c).dir m = Entry.newList.setSector 0 sector := by
    rw [htable, Table.dir_set_self]
  have hlive : ∀ i, i ≠ m → ((s'.table c).Live i ↔ (s.table c).Live i) := by
    intro i hi
    rw [htable, Table.Live, Table.dir_set_ne hi, Table.dir_mark]
    by_cases heq : i = fh.curEntry
    · rw [heq, Table.dir_set_self, Entry.deleted_setNextentry, Table.Live]
    · rw [Table.dir_set_ne heq, Table.dir_take, Table.Live]
  have hlist : ((s'.table c).dir fh.entry).isListentry = ((s.table c).dir fh.entry).isListentry := by
    rw [htable, Table.dir_set_ne hentry, Table.dir_mark]
    by_cases heq : fh.entry = fh.curEntry
    · rw [heq, Table.dir_set_self, Entry.isListentry_setNextentry]
    · rw [Table.dir_set_ne heq, Table.dir_take]
  have hmaxm : ((s'.table c).dir m).maxSectors = 30 := by
    rw [hdirm, Entry.maxSectors, Entry.isListentry_setSector (by omega), Entry.isListentry_newList]
    rfl
  refine ⟨_, ⟨hsound, hframe, hgrows, fun i hi => (hlive i (hnew i (hs.links.used i hi))).mpr hi,
    fun i hi hl => (hlive i (hnew i hi)).mp hl, fun i hi hlist => ?_, ⟨hw.entry_lt, hm, (hframe.used _ hw.entryUsed).1, ?_, ?_, Places.own_put_self, ?_, ?_, ?_, hsector,
      hw.curSoffset_lt, hw.size_lt, ?_⟩, rfl, rfl, hquiet.markFault, hquiet.readFault, hquiet.hung,
    fun _ => by omega, ?_, ?_⟩, ⟨?_, ?_, fun _ hzero => absurd hzero (by simp), ?_, ?_⟩⟩
  · rw [htable, Table.dir_set_ne (hnew i (hs.links.used i hi)), Table.dir_mark]
    by_cases heq : i = fh.curEntry
    · rw [heq] at hlist ⊢
      rw [Table.dir_set_self]
      exact ⟨Entry.isListentry_setNextentry.trans hlist, Entry.name_setNextentry,
        Entry.size_setNextentry⟩
    · rw [Table.dir_set_ne heq]
      exact ⟨hlist, rfl, rfl⟩
  · rw [htable]
    exact Table.usedEntry_take_self
  · exact (Places.own_put_ne hentry).trans hw.ownEntry
  · exact fun h => hlist.trans (hw.name ((hlive _ hentry).mp h))
  · intro i hi hown
    by_cases him : i = m
    · rw [him]
    · have hown' : g.own i = fh.entry := (Places.own_put_ne him).symm.trans hown
      have hle := hw.last i ((hlive i him).mp hi) hown'
      show (g.put m fh.entry _).pos i ≤ (g.put m fh.entry _).pos m
      rw [Places.pos_put_ne him, Places.pos_put_self]
      omega
  · intro _
    show ((s'.table c).dir m).deleted = false
    rw [hdirm, Entry.deleted_setSector (by omega), Entry.deleted_newList]
  · exact fun h => hgrows.holds (hw.holds ((hlive _ hentry).mp h))
  · intro _ hexact x hx hused
    by_cases heq : x = sector
    · refine ⟨m, 0, ?_⟩
      rw [htable, heq]
      exact (Table.listed_extend (hs.links.not_live hfreem) (by omega) _ _ _).mpr
        (.inr ⟨rfl, rfl, rfl⟩)
    · have hold : (s.table c).usedSector x = true := by
        rw [htable] at hused
        exact (Table.usedSector_mark_ne heq).symm.trans hused
      obtain ⟨i, j, hij⟩ := hexact x hx hold
      exact ⟨i, j, hgrows.listed i j x hij⟩
  · intro hc
    exact hc.mark hsector hfree (by rw [htable]; rfl) hcount
  · intro _
    simp only [hmaxm]
    refine ⟨by omega, fun j hj => ?_⟩
    rw [hdirm]
    by_cases hj0 : j = 0
    · subst hj0
      rw [Entry.sector_setSector_self (by omega)]
      constructor <;> omega
    · rw [Entry.sector_setSector_ne (by omega) hj hj0, Entry.sector_newList j hj]
      constructor <;> omega
  · intro h
    have hlive' := (hlive _ hentry).mp h
    have hcur := hw.curEntryLive hlive'
    have hcount := ht.count hlive'
    have hmax := hs.links.maxSectors_eq hcur
    have hfullmax := (hfull hcur).1
    show n + 1 = base ((g.put m fh.entry (g.pos fh.curEntry + 1)).pos m) + (0 + 1) % 256
    rw [Places.pos_put_self, base_succ]
    omega
  · exact fun h => ht.offset ((hlive _ hentry).mp h)
  · intro _ _
    show ((s'.table c).dir m).sector 0 = sector
    rw [hdirm, Entry.sector_setSector_self (by omega)]

/-- The part of a write that allocates a sector: the directory stays well-formed, and the file has a
sector more unless an error is returned. -/
theorem addSector_progress (hs : (s.table c).Sound c g) (hw : fh.Writer c (s.table c) g) {n : ℕ}
    (ht : fh.Tied c (s.table c) g n) :
    ∃ g', Progress c s g fh (s.addSector c fh).2.2 g' (s.addSector c fh).2.1 ∧
      (s.addSector c fh).2.2.data c = s.data c ∧
      (s.addSector c fh).2.1.size = fh.size ∧
      ((s.addSector c fh).1 = .ok →
        Handle.Tied c ((s.addSector c fh).2.2.table c) g' (s.addSector c fh).2.1 (n + 1)) := by
  have hsc : c.sectorCount < 256 := c.sectors_lt
  have hscan := Eefs.nextFreeSector_cases c s hw.curSector_lt
  have hadded := Eefs.added_addSector c s hw.curEntry_lt
  have hvalid : ∀ x, s.nextFreeSector c fh.curSector = some x → x ≠ 255 →
      x < c.sectorCount ∧ s.sectorUsed x = false := by
    intro x hx hne
    rcases hscan with ⟨h255, -⟩ | ⟨y, hy, hfree, hsome⟩
    · exact absurd (Option.some.inj (hx.symm.trans h255)) hne
    · obtain rfl := Option.some.inj (hx.symm.trans hsome)
      exact ⟨hy, hfree⟩
  generalize s.addSector c fh = r at hadded
  cases hadded with
  | hung hnone =>
    rcases hscan with ⟨h255, -⟩ | ⟨y, -, -, hsome⟩
    · exact absurd (hnone.symm.trans h255) (by simp)
    · exact absurd (hnone.symm.trans hsome) (by simp)
  | diskFull => exact ⟨g, .refl hs hw, rfl, rfl, by simp⟩
  | dirFull hsome hsector =>
    have hprog := Progress.refl hs hw
    exact ⟨g, { hprog with
      writer := { hw with curSector_lt := (hvalid _ hsome hsector).1 } }, rfl, rfl, by simp⟩
  | recorded hsome hsector hlt htable hquiet hcount =>
    obtain ⟨hx, hfree⟩ := hvalid _ hsome hsector
    obtain ⟨hprog, htied⟩ := recorded_progress hs hw ht hx hfree hlt htable hquiet hcount
    exact ⟨g, hprog, hquiet.data, rfl, fun _ => htied⟩
  | extended hsome hsector hm hfreem hle htable hquiet hcount =>
    obtain ⟨hx, hfree⟩ := hvalid _ hsome hsector
    obtain ⟨g', hprog, htied⟩ :=
      extended_progress hs hw ht hx hfree hm hfreem hle htable hquiet hcount
    exact ⟨g', hprog, hquiet.data, rfl, fun _ => htied⟩

theorem add_div_mod {a o m : ℕ} (h : a % m + o < m) :
    (a + o) / m = a / m ∧ (a + o) % m = a % m + o := by
  have hsplit : a + o = m * (a / m) + (a % m + o) := by
    have hdiv := Nat.div_add_mod a m
    omega
  constructor
  · rw [hsplit, Nat.mul_add_div (by omega), Nat.div_eq_of_lt h, Nat.add_zero]
  · rw [hsplit, Nat.mul_add_mod, Nat.mod_eq_of_lt h]

theorem blocks_eq {q m : ℕ} (hlo : c.sectorSize * q < m) (hhi : m ≤ c.sectorSize * (q + 1)) :
    blocks c m = q + 1 := by
  have hpos := c.sectorSize_pos
  rw [Nat.mul_add, Nat.mul_one] at hhi
  refine Nat.div_eq_of_lt_le ?_ ?_
  · rw [Nat.mul_comm, Nat.mul_add, Nat.mul_one]
    omega
  · rw [Nat.mul_comm, Nat.mul_add, Nat.mul_add, Nat.mul_one]
    omega

theorem blocks_of_mod_eq_zero {n : ℕ} (h : n % c.sectorSize = 0) : blocks c n = n / c.sectorSize := by
  have hpos := c.sectorSize_pos
  have hdiv := Nat.div_add_mod n c.sectorSize
  have hsplit : n + c.sectorSize - 1 = c.sectorSize * (n / c.sectorSize) + (c.sectorSize - 1) := by
    omega
  rw [blocks, hsplit, Nat.mul_add_div hpos,
    Nat.div_eq_of_lt (show c.sectorSize - 1 < c.sectorSize by omega), Nat.add_zero]

theorem blocks_of_mod_ne_zero {n : ℕ} (h : n % c.sectorSize ≠ 0) :
    blocks c n = n / c.sectorSize + 1 := by
  have hdiv := Nat.div_add_mod n c.sectorSize
  have hlt := Nat.mod_lt n c.sectorSize_pos
  refine blocks_eq (by omega) ?_
  rw [Nat.mul_add, Nat.mul_one]
  omega

theorem Handle.Tied.congr {t : Table} {n m : ℕ} (ht : fh.Tied c t g n)
    (h : t.Live fh.entry → n = m) : fh.Tied c t g m :=
  { ht with count := fun hlive => (h hlive).symm.trans (ht.count hlive) }

/-- The chunk that a round of a write puts into the sector at hand. -/
structure Chunk (c : Config) (s : Eefs) (fh : Handle) (data : List UInt8) (n : ℕ) (s' : Eefs)
    (fh' : Handle) : Prop where
  pos : 0 < n
  le : n ≤ data.length
  fits : fh.curSoffset + n ≤ c.sectorSize
  fs : s' = s.writeData c (c.sectorSize * fh.curSector + fh.curSoffset) n fun k => data.getD k 0
  handle : fh' = { fh with
    size := (fh.size + n) % 65536
    curOffset := (fh.curOffset + n) % 65536
    curSoffset := (fh.curSoffset + n) % c.sectorSize }

theorem chunk_writeChunk {data : List UInt8} (hoff : fh.curSoffset < c.sectorSize)
    (hdata : data ≠ []) :
    Chunk c s fh data (s.writeChunk c fh data).1 (s.writeChunk c fh data).2.2
      (s.writeChunk c fh data).2.1 := by
  have hlt := c.sectorSize_lt
  have hlen := List.length_pos_iff.mpr hdata
  have hn : (s.writeChunk c fh data).1 = min data.length (c.sectorSize - fh.curSoffset) :=
    Nat.mod_eq_of_lt (by omega)
  refine ⟨?_, ?_, ?_, rfl, rfl⟩ <;> rw [hn] <;> omega

variable {data : List UInt8} {n : ℕ}

/-- The size of a live file grows by the chunk, within the sectors that the file has. -/
theorem Chunk.size (h : Chunk c s fh data n s' fh') (hs : (s.table c).Sound c g)
    (hw : fh.Writer c (s.table c) g)
    (ht : fh.Tied c (s.table c) g (fh.size / c.sectorSize + 1))
    (hlive : (s.table c).Live fh.entry) :
    fh'.size = fh.size + n ∧ blocks c (fh.size + n) = fh.size / c.sectorSize + 1 ∧
      fh.size + n ≤ c.sectorSize * (fh.size / c.sectorSize + 1) := by
  have hoff := ht.offset hlive
  have hdiv := Nat.div_add_mod fh.size c.sectorSize
  have hfits := h.fits
  have hpos := h.pos
  have hle : fh.size + n ≤ c.sectorSize * (fh.size / c.sectorSize + 1) := by
    rw [Nat.mul_add, Nat.mul_one]
    omega
  have hcap : c.sectorSize * (fh.size / c.sectorSize + 1) ≤ 255 * 255 := by
    have hsectors := (ht.holds hw hs hlive).le hs.listing
    have hsc : c.sectorCount < 256 := c.sectors_lt
    have hss := c.sectorSize_lt
    exact Nat.mul_le_mul (by omega) (by omega)
  refine ⟨?_, blocks_eq (by omega) hle, hle⟩
  rw [h.handle]
  exact Nat.mod_eq_of_lt (by omega)

theorem Chunk.progress (h : Chunk c s fh data n s' fh') (hs : (s.table c).Sound c g)
    (hw : fh.Writer c (s.table c) g)
    (ht : fh.Tied c (s.table c) g (fh.size / c.sectorSize + 1)) :
    Progress c s g fh s' g fh' ∧ fh'.Tied c (s'.table c) g (blocks c fh'.size) := by
  have htable : s'.table c = s.table c := by rw [h.fs, Eefs.table_writeData]
  have hprog := Progress.refl hs hw
  have hentry : fh'.entry = fh.entry := by rw [h.handle]
  have hcur : fh'.curEntry = fh.curEntry := by rw [h.handle]
  have hsindex : fh'.curSindex = fh.curSindex := by rw [h.handle]
  have hsector : fh'.curSector = fh.curSector := by rw [h.handle]
  have hlt := Nat.mod_lt (fh.curSoffset + n) c.sectorSize_pos
  refine ⟨⟨?_, ?_, ?_, ?_, ?_, ?_, ⟨?_, ?_, ?_, ?_, ?_, ?_, ?_, ?_, ?_, ?_, ?_, ?_, ?_⟩, hentry, ?_, ?_, ?_,
    ?_, ?_, ?_, ?_⟩,
    ⟨?_, ?_, ?_, ?_, ?_⟩⟩
  all_goals try rw [htable]
  all_goals try rw [hentry]
  all_goals try rw [hcur]
  all_goals try rw [hsindex]
  all_goals try rw [hsector]
  · exact hs
  · exact hprog.frame
  · exact hprog.grows
  · exact hprog.live
  · exact hprog.dead
  · exact hprog.files
  · exact hw.entry_lt
  · exact hw.curEntry_lt
  · exact hw.entryUsed
  · exact hw.curEntryUsed
  · exact hw.ownEntry
  · exact hw.ownCurEntry
  · exact hw.name
  · exact hw.last
  · exact hw.curEntryLive
  · exact hw.curSector_lt
  · rw [h.handle]
    exact hlt
  · rw [h.handle]
    exact Nat.mod_lt _ (by decide)
  · intro hlive
    obtain ⟨hsize, hblocks, -⟩ := h.size hs hw ht hlive
    rw [hsize, hblocks]
    exact ht.holds hw hs hlive
  · rw [h.handle]
  · rw [h.fs]
    rfl
  · rw [h.fs]
    rfl
  · rw [h.fs]
    rfl
  · rw [h.fs]
    exact id
  · exact fun _ hexact => hexact
  · intro hc
    exact hc.congr (by rw [htable]) (by rw [h.fs]; rfl)
  · exact ht.filled
  · intro hlive
    obtain ⟨hsize, hblocks, -⟩ := h.size hs hw ht hlive
    rw [hsize, hblocks]
    exact ht.count hlive
  · exact ht.start
  · intro hlive
    rw [(h.size hs hw ht hlive).1, h.handle, ht.offset hlive]
    exact Nat.mod_add_mod ..
  · exact ht.sector

/-- The file with the first entry `r` holds `bytes`. -/
def Eefs.Content (c : Config) (s : Eefs) (g : Places) (r : ℕ) (bytes : List UInt8) : Prop :=
  ∀ k (h : k < bytes.length), ∃ x, (s.table c).SectorAt g r (k / c.sectorSize) x ∧
    s.data c (c.sectorSize * x + k % c.sectorSize) = bytes[k]

theorem Eefs.Content.grow {r : ℕ} {bytes : List UInt8} (h : s.Content c g r bytes)
    (hgrows : (s.table c).Grows g (s'.table c) g') (hdata : s'.data c = s.data c) :
    s'.Content c g' r bytes := by
  intro k hk
  obtain ⟨x, hx, hbyte⟩ := h k hk
  exact ⟨x, hgrows.sectorAt hx, by rw [hdata, hbyte]⟩

/-- The sector at hand is the last one of the file. -/
theorem Handle.Tied.sectorAt {m : ℕ} (ht : fh.Tied c (s.table c) g (m + 1))
    (hs : (s.table c).Sound c g) (hw : fh.Writer c (s.table c) g)
    (hlive : (s.table c).Live fh.entry) : (s.table c).SectorAt g fh.entry m fh.curSector := by
  have hpos := ht.pos hlive
  have hcur := hw.curEntryLive hlive
  obtain ⟨hle, hfilled⟩ := ht.filled hcur
  have hcount := ht.count hlive
  have hmax := hs.links.maxSectors_eq hcur
  obtain ⟨hhops, hindex⟩ := hops_base (p := g.pos fh.curEntry) (j := (fh.curSindex + 1) % 256 - 1)
    (by omega)
  have hm : m = base (g.pos fh.curEntry) + ((fh.curSindex + 1) % 256 - 1) := by omega
  rw [← hm] at hhops hindex
  refine ⟨fh.curEntry, ⟨hcur, by omega, ?_, ?_⟩, hw.ownCurEntry, hhops.symm⟩
  · rw [hindex]
    exact ht.sector hlive hpos
  · rw [← ht.sector hlive hpos]
    exact (hfilled _ (by omega)).mpr (by omega)

/-- Two addresses in different sectors. -/
theorem sector_apart {a x y m : ℕ} (hne : x ≠ y) (ha : a < m) :
    m * x + a < m * y ∨ m * y + m ≤ m * x + a := by
  rcases Nat.lt_or_gt_of_ne hne with hlt | hgt
  · have hle : m * (x + 1) ≤ m * y := Nat.mul_le_mul_left m hlt
    rw [Nat.mul_add, Nat.mul_one] at hle
    omega
  · have hle : m * (y + 1) ≤ m * x := Nat.mul_le_mul_left m hgt
    rw [Nat.mul_add, Nat.mul_one] at hle
    omega

/-- A chunk leaves the other files alone and adds its bytes to its own. -/
theorem Chunk.content (h : Chunk c s fh data n s' fh') (hs : (s.table c).Sound c g)
    (hat : (s.table c).SectorAt g fh.entry (fh.size / c.sectorSize) fh.curSector)
    (hoff : fh.curSoffset = fh.size % c.sectorSize) :
    (∀ r bytes, r ≠ fh.entry → s.Content c g r bytes → s'.Content c g r bytes) ∧
      ∀ bytes, bytes.length = fh.size → s.Content c g fh.entry bytes →
        s'.Content c g fh.entry (bytes ++ data.take n) := by
  have htable : s'.table c = s.table c := by rw [h.fs, Eefs.table_writeData]
  have hfits := h.fits
  -- a byte outside the chunk keeps its value
  have hkeep : ∀ x a, a < c.sectorSize → (x = fh.curSector → a < fh.curSoffset) →
      s'.data c (c.sectorSize * x + a) = s.data c (c.sectorSize * x + a) := by
    intro x a ha hx
    rw [h.fs]
    refine Eefs.data_writeData_outside ?_
    by_cases heq : x = fh.curSector
    · have hlt := hx heq
      rw [heq]
      omega
    · have hapart := sector_apart heq ha
      omega
  constructor
  · intro r bytes hr hcontent k hk
    obtain ⟨x, hx, hbyte⟩ := hcontent k hk
    refine ⟨x, by rwa [htable], ?_⟩
    rw [hkeep x _ (Nat.mod_lt _ c.sectorSize_pos) ?_, hbyte]
    rintro rfl
    exact absurd (hx.inj hs.listing hat).1 hr
  · intro bytes hlen hcontent k hk
    by_cases hold : k < bytes.length
    · obtain ⟨x, hx, hbyte⟩ := hcontent k hold
      refine ⟨x, by rwa [htable], ?_⟩
      rw [List.getElem_append_left hold, ← hbyte]
      refine hkeep x _ (Nat.mod_lt _ c.sectorSize_pos) ?_
      rintro rfl
      -- the same sector: the byte lies before the cursor
      have hsame := (hx.inj hs.listing hat).2
      have hdivk := Nat.div_add_mod k c.sectorSize
      have hdivs := Nat.div_add_mod fh.size c.sectorSize
      rw [hsame] at hdivk
      omega
    · have hnew : k - fh.size < n := by
        rw [List.length_append, List.length_take] at hk
        have hle := h.le
        omega
      obtain ⟨hdiv, hmod⟩ := add_div_mod (a := fh.size) (o := k - fh.size) (m := c.sectorSize)
        (by omega)
      rw [show fh.size + (k - fh.size) = k by omega] at hdiv hmod
      refine ⟨fh.curSector, ?_, ?_⟩
      · rwa [htable, hdiv]
      · rw [hmod, ← hoff, ← Nat.add_assoc, h.fs, Eefs.data_writeData_inside hnew,
          List.getElem_append_right (by omega), List.getElem_take]
        have hle := h.le
        simp only [hlen]
        rw [List.getD_eq_getElem?_getD, List.getElem?_eq_getElem (by omega)]
        rfl

/-- What a write has done to the contents of the files after `w` of its bytes. -/
structure Filled (c : Config) (s : Eefs) (g : Places) (fh : Handle) (data : List UInt8) (w : ℕ)
    (s' : Eefs) (g' : Places) (fh' : Handle) : Prop where
  others : ∀ r bytes, r ≠ fh.entry → s.Content c g r bytes → s'.Content c g' r bytes
  own : ∀ bytes, bytes.length = fh.size → s.Content c g fh.entry bytes →
    s'.Content c g' fh.entry (bytes ++ data.take w)
  size : fh'.size = fh.size + w

/-- A write keeps the directory well-formed. If its file still exists, it appends the bytes that it
reports to it and leaves the others alone. -/
structure Written (c : Config) (s : Eefs) (g : Places) (fh : Handle) (data : List UInt8)
    (w : ℕ) (s' : Eefs) (g' : Places) (fh' : Handle) : Prop where
  progress : Progress c s g fh s' g' fh'
  le : w ≤ data.length
  filled : (s.table c).Live fh.entry → Filled c s g fh data w s' g' fh'

theorem Written.refl (hs : (s.table c).Sound c g) (hw : fh.Writer c (s.table c) g)
    (data : List UInt8) : Written c s g fh data 0 s g fh where
  progress := .refl hs hw
  le := Nat.zero_le _
  filled _ := ⟨fun _ _ _ h => h, fun bytes _ h => by simpa using h, rfl⟩

/-- A sector more changes no content. -/
theorem Written.addSector {w : ℕ} {s₀ : Eefs} {g₀ : Places} {fh₀ : Handle}
    (h : Written c s₀ g₀ fh₀ data w s g fh) (hp : Progress c s g fh s' g' fh')
    (hdata : s'.data c = s.data c) (hsize : fh'.size = fh.size) :
    Written c s₀ g₀ fh₀ data w s' g' fh' where
  progress := h.progress.trans hp
  le := h.le
  filled hlive :=
    { others := fun r bytes hr hc => ((h.filled hlive).others r bytes hr hc).grow hp.grows hdata
      own := fun bytes hlen hc => ((h.filled hlive).own bytes hlen hc).grow hp.grows hdata
      size := hsize.trans (h.filled hlive).size }

/-- The next chunk. -/
theorem Written.chunk {w : ℕ} {s₀ : Eefs} {g₀ : Places} {fh₀ : Handle}
    (h : Written c s₀ g₀ fh₀ data w s g fh)
    (hc : Chunk c s fh (data.drop w) n s' fh')
    (ht : fh.Tied c (s.table c) g (fh.size / c.sectorSize + 1)) :
    Written c s₀ g₀ fh₀ data (w + n) s' g fh' := by
  have hs := h.progress.sound
  have hw := h.progress.writer
  have hentry := h.progress.entry
  have hle := hc.le
  rw [List.length_drop] at hle
  refine ⟨h.progress.trans (hc.progress hs hw ht).1, by have := h.le; omega, fun hlive => ?_⟩
  have hlive' : (s.table c).Live fh.entry := hentry ▸ h.progress.live _ hlive
  obtain ⟨hothers, hown⟩ := hc.content hs (ht.sectorAt hs hw hlive') (ht.offset hlive')
  have hf := h.filled hlive
  refine ⟨fun r bytes hr hcontent => ?_, fun bytes hlen hcontent => ?_, ?_⟩
  · exact hothers r bytes (hentry ▸ hr) (hf.others r bytes hr hcontent)
  · have hbefore := hf.own bytes hlen hcontent
    rw [← hentry] at hbefore
    have hafter := hown _ ?_ hbefore
    · rw [hentry, List.append_assoc, ← List.take_add] at hafter
      exact hafter
    · rw [List.length_append, List.length_take, hf.size]
      have := h.le
      omega
  · rw [(hc.size hs hw ht hlive').1, hf.size]
    omega

/-- A write stopped for a sector after `k` bytes, with the cursor at the end of the last one. -/
structure Awaiting (c : Config) (s : Eefs) (g : Places) (fh : Handle) (data : List UInt8) (k : ℕ)
    (s' : Eefs) (g' : Places) (fh' : Handle) : Prop where
  written : Written c s g fh data k s' g' fh'
  lt : k < data.length
  tied : fh'.Tied c (s'.table c) g' (blocks c fh'.size)
  offset : fh'.curSoffset = 0

/-- The rule for `eepromfs_write` through a handle whose last write did not fail: what holds of the
directory and the number of sectors of its file at the start, and after every sector that is added,
holds at the end. -/
theorem write_rule (hs : (s.table c).Sound c g) (hw : fh.Writer c (s.table c) g)
    (ht : fh.Tied c (s.table c) g (blocks c fh.size)) (hmode : fh.filemode = .write)
    (data : List UInt8) {K : Table → ℕ → Prop}
    (hK : (s.table c).Live fh.entry → K (s.table c) (blocks c fh.size))
    (hadd : ∀ s' g' fh' k, (s.table c).Live fh.entry → Awaiting c s g fh data k s' g' fh' →
      K (s'.table c) (blocks c fh'.size) → (s'.addSector c fh').1 = .ok →
      K ((s'.addSector c fh').2.2.table c) (blocks c fh'.size + 1)) :
    let r := s.eepromfsWrite c fh data
    ∃ g' w, r.2.1 = w % 65536 ∧ Written c s g fh data w r.2.2.2 g' r.2.2.1 ∧
      (r.1 = .ok → w = data.length ∧
        r.2.2.1.Tied c (r.2.2.2.table c) g' (blocks c r.2.2.1.size) ∧
        ((s.table c).Live fh.entry → K (r.2.2.2.table c) (blocks c r.2.2.1.size))) ∧
      (r.1 ≠ .ok → ∃ s' g' fh' k, Awaiting c s g fh data k s' g' fh' ∧
        ((s.table c).Live fh.entry → K (s'.table c) (blocks c fh'.size)) ∧
        (s'.addSector c fh').1 ≠ .ok) := by
  rw [Eefs.eepromfsWrite, if_neg (by simpa using hmode)]
  have hrule := Eefs.writeLoop_rule (c := c)
    (I := fun s' fh' rest w => ∃ g' k, w = k % 65536 ∧ rest = data.drop k ∧
      Written c s g fh data k s' g' fh' ∧ fh'.Tied c (s'.table c) g' (blocks c fh'.size) ∧
      ((s.table c).Live fh.entry → K (s'.table c) (blocks c fh'.size)))
    (J := fun s' fh' rest w => ∃ g' k, w = k % 65536 ∧ rest = data.drop k ∧
      Written c s g fh data k s' g' fh' ∧
        fh'.Tied c (s'.table c) g' (fh'.size / c.sectorSize + 1) ∧
        ((s.table c).Live fh.entry → K (s'.table c) (fh'.size / c.sectorSize + 1)))
    (F := fun _ w fh' s' => ∃ g' k, w = k % 65536 ∧ Written c s g fh data k s' g' fh' ∧
      ∃ s' g' fh' k, Awaiting c s g fh data k s' g' fh' ∧
        ((s.table c).Live fh.entry → K (s'.table c) (blocks c fh'.size)) ∧
        (s'.addSector c fh').1 ≠ .ok)
    ?_ ?_ ?_ (s := s) (w := 0) ⟨g, 0, rfl, rfl, .refl hs hw data, ht, hK⟩ (Nat.le_refl data.length)
  · rcases hrule with ⟨hok, g', k, hk, hrest, hwritten, htied, hKend⟩ | ⟨hok, g', k, hk, hwritten, hstop⟩
    · refine ⟨g', k, hk, hwritten, fun _ => ⟨?_, htied, hKend⟩, fun h => absurd hok h⟩
      have hlen := congrArg List.length hrest
      rw [List.length_drop, List.length_nil] at hlen
      have hle := hwritten.le
      omega
    · exact ⟨g', k, hk, hwritten, fun h => absurd h hok, fun _ => hstop⟩
  · rintro s' fh' rest w ⟨g', k, hk, hrest, hwritten, htied, hKnow⟩ hne hoff
    have hlt : k < data.length := by
      by_contra hge
      exact hne (hrest.trans (List.drop_eq_nil_of_le (by omega)))
    have hawait : Awaiting c s g fh data k s' g' fh' := ⟨hwritten, hlt, htied, hoff⟩
    obtain ⟨g'', hprog, hdata, hsize, hready⟩ :=
      addSector_progress hwritten.progress.sound hwritten.progress.writer htied
    have hwritten' := hwritten.addSector hprog hdata hsize
    by_cases hok : (s'.addSector c fh').1 = .ok
    · have hblocks : (s'.table c).Live fh'.entry →
          blocks c fh'.size + 1 = (s'.addSector c fh').2.1.size / c.sectorSize + 1 := by
        intro hlive
        rw [hsize, blocks_of_mod_eq_zero]
        rw [← htied.offset hlive, hoff]
      refine .inl ⟨hok, g'', k, hk, hrest, hwritten', (hready hok).congr fun hlive => hblocks ?_,
        fun hlive => ?_⟩
      · rw [hprog.entry] at hlive
        exact hprog.dead _ hwritten.progress.writer.entryUsed hlive
      · rw [← hblocks (hwritten.progress.entry ▸ hwritten.progress.live _ hlive)]
        exact hadd s' g' fh' k hlive hawait (hKnow hlive) hok
    · exact .inr ⟨hok, g'', k, hk, hwritten', s', g', fh', k, hawait, hKnow, hok⟩
  · rintro s' fh' rest w ⟨g', k, hk, hrest, hwritten, htied, hKnow⟩ hoff
    have hblocks : (s'.table c).Live fh'.entry → blocks c fh'.size = fh'.size / c.sectorSize + 1 := by
      intro hlive
      apply blocks_of_mod_ne_zero
      rwa [← htied.offset hlive]
    refine ⟨g', k, hk, hrest, hwritten, htied.congr hblocks, fun hlive => ?_⟩
    rw [← hblocks (hwritten.progress.entry ▸ hwritten.progress.live _ hlive)]
    exact hKnow hlive
  · rintro s' fh' rest w ⟨g', k, hk, hrest, hwritten, htied, hKnow⟩ hne
    have hchunk := chunk_writeChunk (c := c) (s := s') hwritten.progress.writer.curSoffset_lt hne
    have hp := hchunk.progress hwritten.progress.sound hwritten.progress.writer htied
    refine ⟨hchunk.pos, g', k + (s'.writeChunk c fh' rest).1, ?_, ?_, ?_, hp.2, fun hlive => ?_⟩
    · rw [hk]
      omega
    · rw [hrest, List.drop_drop]
    · exact hwritten.chunk (hrest ▸ hchunk) htied
    · have hlive' := hwritten.progress.entry ▸ hwritten.progress.live _ hlive
      obtain ⟨hsize, hblocks, -⟩ :=
        hchunk.size hwritten.progress.sound hwritten.progress.writer htied hlive'
      rw [hsize, hblocks, hchunk.fs, Eefs.table_writeData]
      exact hKnow hlive

/-- What `eepromfs_write` does through a handle whose last write did not fail. -/
theorem write_written (hs : (s.table c).Sound c g) (hw : fh.Writer c (s.table c) g)
    (ht : fh.Tied c (s.table c) g (blocks c fh.size)) (hmode : fh.filemode = .write)
    (data : List UInt8) :
    let r := s.eepromfsWrite c fh data
    ∃ g' w, r.2.1 = w % 65536 ∧ Written c s g fh data w r.2.2.2 g' r.2.2.1 ∧
      (r.1 = .ok → w = data.length ∧
        r.2.2.1.Tied c (r.2.2.2.table c) g' (blocks c r.2.2.1.size)) := by
  obtain ⟨g', w, hcount, hwritten, hok, -⟩ := write_rule hs hw ht hmode data (K := fun _ _ => True)
    (fun _ => trivial) (fun _ _ _ _ _ _ _ _ => trivial)
  exact ⟨g', w, hcount, hwritten, fun h => ⟨(hok h).1, (hok h).2.1⟩⟩

end NoDiskEmu.Eeprom
