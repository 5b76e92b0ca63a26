import NoDiskEmu.Eeprom.Room
import NoDiskEmu.Eeprom.RoundTrip

/-! Appending to a file: where `eepromfs_open` puts the cursor, and what writes from there do. -/

namespace NoDiskEmu.Eeprom

open Library Library.Run

variable {c : Config} {s s' : Eefs} {g g' : Places} {fh fh' : Handle}

/-- The entries of a file from entry `i` on. -/
def chain (dir : ℕ → Entry) : ℕ → ℕ → List ℕ
  | 0, _ => []
  | fuel + 1, i =>
    i :: if (dir i).nextentry = 0xff then [] else chain dir fuel (dir i).nextentry

/-- The sectors of a file from entry `i` on. -/
def chainSectors (dir : ℕ → Entry) (fuel i : ℕ) : List ℕ :=
  (chain dir fuel i).flatMap fun e => (dir e).leading

/-- The file at entry `i` has the entries and sectors that its size needs and no others, as every
file that was closed after it was written. -/
def Eefs.Trimmed (c : Config) (s : Eefs) (i : ℕ) : Prop :=
  (chain (s.entry c) 257 i).length = spans (blocks c (s.entry c i).size) ∧
    (chainSectors (s.entry c) 257 i).length = blocks c (s.entry c i).size

instance (s : Eefs) (i : ℕ) : Decidable (s.Trimmed c i) := inferInstanceAs (Decidable (_ ∧ _))

section Last

variable {t : Table}

theorem Table.Links.pos_lt (hl : t.Links c g) {i : ℕ} (hi : t.Live i) (hown : t.Live (g.own i)) :
    g.pos i < c.entries := by
  choose f hf using fun p : Fin (g.pos i + 1) => hl.chain hi hown (p := p) (by omega)
  have hinj : Function.Injective fun p => (⟨f p, hl.bound _ (hf p).1⟩ : Fin c.entries) := by
    intro p p' heq
    have hval : f p = f p' := congrArg Fin.val heq
    have hpos := (hf p).2.2.1
    rw [hval, (hf p').2.2.1] at hpos
    exact Fin.ext hpos.symm
  have hcard := Fintype.card_le_of_injective _ hinj
  rw [Fintype.card_fin, Fintype.card_fin] at hcard
  omega

theorem Table.Sound.leading_full (hs : t.Sound c g) {i : ℕ} (hi : t.Live i)
    (hnext : (t.dir i).nextentry ≠ 255) : (t.dir i).leading.length = (t.dir i).maxSectors := by
  have hle := (leading_eq (t.dir i)).2
  have hpos := (t.dir i).maxSectors_pos
  obtain ⟨x, hx⟩ := hs.listing.full i hi hnext ((t.dir i).maxSectors - 1) (by omega)
  have hlt := hs.listing.lt_leading hx
  omega

/-- The sectors of an entry end where those that are listed end. -/
theorem Table.Listing.length_leading (hl : t.Listing c) {i n : ℕ} (hi : t.Live i)
    (hle : n ≤ (t.dir i).maxSectors)
    (h : ∀ j < (t.dir i).maxSectors, (t.dir i).sector j ≠ 255 ↔ j < n) :
    (t.dir i).leading.length = n := by
  obtain ⟨-, hlen⟩ := Table.leading_eq (t.dir i)
  apply Nat.le_antisymm
  · by_contra hgt
    have hlt := (h n (by omega)).mp (Table.sector_leading (by omega))
    omega
  · by_contra hgt
    have hne := (h (t.dir i).leading.length (by omega)).mpr (by omega)
    have hlt := hl.lt_leading ⟨hi, by omega, rfl, hne⟩
    omega

/-- The last entry of a file. -/
structure Table.Last (t : Table) (g : Places) (r e : ℕ) : Prop where
  live : t.Live e
  own : g.own e = r
  next : (t.dir e).nextentry = 255

/-- The loop of an append-open ends at the last entry. -/
theorem lastEntry_last (hs : (s.table c).Sound c g) (fuel : ℕ) {i : ℕ} (hi : (s.table c).Live i)
    (hown : (s.table c).Live (g.own i)) (hbuffer : s.buffer = s.entry c i)
    (hfuel : c.entries ≤ fuel + g.pos i) :
    ∃ e, Eefs.lastEntry c fuel s i = (e, s.setBuffer (s.entry c e)) ∧
      (s.table c).Last g (g.own i) e ∧
      (chain (s.entry c) fuel i).length + g.pos i = g.pos e + 1 ∧
      (chainSectors (s.entry c) fuel i).length + base (g.pos i) =
        base (g.pos e) + ((s.table c).dir e).leading.length := by
  induction fuel generalizing s i with
  | zero =>
    have hlt := hs.links.pos_lt hi hown
    omega
  | succ fuel ih =>
    have hdir := Eefs.dir_table (s := s) (hs.links.bound i hi)
    rw [Eefs.lastEntry, chainSectors, chain, hbuffer, ← hdir]
    by_cases hnext : ((s.table c).dir i).nextentry = 255
    · refine ⟨i, ?_, ⟨hi, rfl, hnext⟩, ?_, ?_⟩
      · rw [if_neg (not_not.mpr hnext), ← hbuffer]
        rfl
      · simp [hnext]
        omega
      · simp only [if_pos hnext, List.flatMap_cons, List.flatMap_nil, List.append_nil, ← hdir]
        omega
    · obtain ⟨hlive, hown', hpos⟩ := hs.links.next i hi hnext
      obtain ⟨e, heq, hlast, hlen, hsectors⟩ :=
        ih (s := s.readEntry c ((s.table c).dir i).nextentry) hs hlive (hown'.symm ▸ hown) rfl
          (by omega)
      rw [hown'] at hlast
      refine ⟨e, ?_, hlast, ?_, ?_⟩
      · rw [if_pos hnext, heq]
        rfl
      · rw [if_neg hnext, List.length_cons]
        have hlen' : (chain (s.entry c) fuel ((s.table c).dir i).nextentry).length +
          g.pos ((s.table c).dir i).nextentry = g.pos e + 1 := hlen
        omega
      · rw [if_neg hnext, List.flatMap_cons, List.length_append]
        have hsectors' : (chainSectors (s.entry c) fuel ((s.table c).dir i).nextentry).length +
          base (g.pos ((s.table c).dir i).nextentry) =
            base (g.pos e) + ((s.table c).dir e).leading.length := hsectors
        have hfull := hs.leading_full hi hnext
        have hmax := hs.links.maxSectors_eq hi
        have hsucc := base_succ (g.pos i)
        rw [chainSectors, hpos] at hsectors'
        rw [← hdir]
        omega

/-- No entry of a file is behind its last one. -/
theorem Table.Last.pos_le (hs : t.Sound c g) {r e : ℕ} (h : t.Last g r e) (hr : t.Live r) {i : ℕ}
    (hi : t.Live i) (hown : g.own i = r) : g.pos i ≤ g.pos e := by
  by_contra hgt
  obtain ⟨q, hq, hqown, hqpos, hqnext⟩ := hs.links.chain hi (hown.symm ▸ hr) (p := g.pos e) (by omega)
  obtain rfl : q = e := hs.links.inj q e hq h.live (hqown.trans (hown.trans h.own.symm)) hqpos
  exact hqnext (by omega) h.next

/-- A file has the entries and sectors that a handle in step with the directory has counted. -/
theorem Handle.Tied.trimmed {n : ℕ} (ht : fh.Tied c (s.table c) g n) (hs : (s.table c).Sound c g)
    (hw : fh.Writer c (s.table c) g) (hlive : (s.table c).Live fh.entry) :
    (chain (s.entry c) 257 fh.entry).length = spans n ∧
      (chainSectors (s.entry c) 257 fh.entry).length = n := by
  have hent := c.entries_lt
  have hcur := hw.curEntryLive hlive
  have hpos := (hs.links.root _ hlive (hw.name hlive)).2
  obtain ⟨e, -, hlast, hlen, hsectors⟩ := lastEntry_last (s := s.readEntry c fh.entry) hs 257
    hlive (hw.ownEntry.symm ▸ hlive) rfl (by omega)
  have hlast' : (s.table c).Last g fh.entry e := by
    have hlast'' : (s.table c).Last g (g.own fh.entry) e := hlast
    rwa [hw.ownEntry] at hlast''
  -- the last entry is the one of the cursor
  obtain rfl : e = fh.curEntry := hs.links.inj e _ hlast'.live hcur
    (hlast'.own.trans hw.ownCurEntry.symm) (Nat.le_antisymm (hw.last e hlast'.live hlast'.own)
      (hlast'.pos_le hs hlive hcur hw.ownCurEntry))
  obtain ⟨hle, hfilled⟩ := ht.filled hcur
  have hmax := hs.links.maxSectors_eq hcur
  have hleading : ((s.table c).dir fh.curEntry).leading.length = (fh.curSindex + 1) % 256 :=
    hs.listing.length_leading hcur hle hfilled
  rw [hpos] at hlen hsectors
  have hlen' : (chain (s.entry c) 257 fh.entry).length + 0 = g.pos fh.curEntry + 1 := hlen
  have hsectors' : (chainSectors (s.entry c) 257 fh.entry).length + 0 =
    base (g.pos fh.curEntry) + ((s.table c).dir fh.curEntry).leading.length := hsectors
  rw [hleading, ← ht.count hlive] at hsectors'
  refine ⟨?_, hsectors'⟩
  rw [ht.count hlive, spans_base (by omega) (ht.start hlive)]
  exact hlen'

end Last

/-- `fh'` is `fh` with the cursor at the last sector of its entry. An append-open leaves the index in
the entry at 0, and finds no sector for an empty file. -/
structure Handle.Agrees (fh fh' : Handle) : Prop where
  eq : fh' = { fh with curSector := fh'.curSector, curSindex := fh'.curSindex }
  sector : fh.curSoffset ≠ 0 ∨ fh.curSector ≠ 255 → fh'.curSector = fh.curSector
  read : fh.filemode = .read → fh' = fh

theorem Handle.Agrees.refl (fh : Handle) : fh.Agrees fh := ⟨rfl, fun _ => rfl, fun _ => rfl⟩

theorem Handle.Agrees.size (h : fh.Agrees fh') : fh'.size = fh.size := by rw [h.eq]

theorem Handle.Agrees.entry (h : fh.Agrees fh') : fh'.entry = fh.entry := by rw [h.eq]

theorem Handle.Agrees.curSoffset (h : fh.Agrees fh') : fh'.curSoffset = fh.curSoffset := by rw [h.eq]

theorem Handle.Agrees.filemode (h : fh.Agrees fh') : fh'.filemode = fh.filemode := by rw [h.eq]

/-- The cursor is at the last sector of the entry at hand, if that has not been deleted. -/
def Handle.AtEnd (c : Config) (s : Eefs) (fh : Handle) : Prop :=
  fh.curSector < c.sectorCount ∧ (s.Live c fh.curEntry →
    (fh.curSindex + 1) % 256 = (s.entry c fh.curEntry).leading.length)

instance (s : Eefs) (fh : Handle) : Decidable (fh.AtEnd c s) := inferInstanceAs (Decidable (_ ∧ _))

/-- A handle with its cursor at the end is in step with the directory if one that it agrees with
is. -/
theorem Handle.Agrees.tied (h : fh.Agrees fh') (hend : fh.AtEnd c s) (hs : (s.table c).Sound c g)
    (hw : fh'.Writer c (s.table c) g) {n : ℕ} (ht : fh'.Tied c (s.table c) g n) :
    fh.Writer c (s.table c) g ∧ fh.Tied c (s.table c) g n := by
  have hsc : c.sectorCount < 256 := c.sectors_lt
  have hlt := hend.1
  have hentry := h.entry
  have hcurEntry : fh'.curEntry = fh.curEntry := by rw [h.eq]
  have hsector : fh'.curSector = fh.curSector := h.sector (.inr (by omega))
  have hw' : fh.Writer c (s.table c) g := by
    have hw'' := hw
    rw [h.eq] at hw''
    exact { hw'' with curSector_lt := hend.1 }
  refine ⟨hw', ?_⟩
  -- the index of both handles is the one that the entry tells
  have hindex : (s.table c).Live fh.curEntry → (fh'.curSindex + 1) % 256 = (fh.curSindex + 1) % 256 := by
    intro hlive
    rw [hend.2 (Eefs.live_table.mp hlive), ← Eefs.dir_table (hs.links.bound _ hlive)]
    obtain ⟨hle, hfilled⟩ := ht.filled (hcurEntry ▸ hlive)
    rw [hcurEntry] at hle hfilled
    exact (hs.listing.length_leading hlive hle hfilled).symm
  have hlive' : (s.table c).Live fh.entry → (s.table c).Live fh.curEntry := hw'.curEntryLive
  rw [h.eq] at ht
  refine ⟨fun hlive => ?_, fun hlive => ?_, fun hlive hzero => ?_, ht.offset, fun hlive hpos => ?_⟩
  · rw [← hindex hlive]
    exact ht.filled hlive
  · rw [← hindex (hlive' hlive)]
    exact ht.count hlive
  · rw [← hindex (hlive' hlive)] at hzero
    exact ht.start hlive hzero
  · rw [← hindex (hlive' hlive)] at hpos ⊢
    rw [← hsector]
    exact ht.sector hlive hpos

/-- The bytes fit into what is left of the sector at hand. -/
def Handle.Inside (c : Config) (fh : Handle) (len : ℕ) : Prop :=
  len = 0 ∨ fh.curSoffset ≠ 0 ∧ fh.curSoffset + len ≤ c.sectorSize

theorem write_nil (hmode : fh.filemode = .write) : s.eepromfsWrite c fh [] = (.ok, 0, fh, s) := by
  rw [Eefs.eepromfsWrite, if_neg (by simpa using hmode)]
  rfl

/-- A write that stays in the sector at hand. -/
theorem write_inside {data : List UInt8} (hmode : fh.filemode = .write) (hdata : data ≠ [])
    (hoff : fh.curSoffset ≠ 0) (hfits : fh.curSoffset + data.length ≤ c.sectorSize) :
    s.eepromfsWrite c fh data = (.ok, data.length % 65536,
      { fh with
        size := (fh.size + data.length) % 65536
        curOffset := (fh.curOffset + data.length) % 65536
        curSoffset := (fh.curSoffset + data.length) % c.sectorSize },
      s.writeData c (c.sectorSize * fh.curSector + fh.curSoffset) data.length
        fun k => data.getD k 0) := by
  have hlt := c.sectorSize_lt
  have hn : (s.writeChunk c fh data).1 = data.length := by
    show min data.length (c.sectorSize - fh.curSoffset) % 256 = data.length
    rw [Nat.min_eq_left (by omega), Nat.mod_eq_of_lt (by omega)]
  have hdone : ∀ fuel (s : Eefs) (fh : Handle) w, s.writeLoop c fuel fh [] w = (.ok, w, fh, s) := by
    intro fuel s fh w
    cases fuel <;> rfl
  obtain ⟨n, hlen⟩ : ∃ n, data.length = n + 1 :=
    ⟨data.length - 1, by have := List.length_pos_iff.mpr hdata; omega⟩
  rw [Eefs.eepromfsWrite, if_neg (by simpa using hmode)]
  nth_rewrite 1 [hlen]
  rw [Eefs.writeLoop, if_neg hdata]
  simp only [if_neg hoff]
  rw [if_neg (by simp), hn, List.drop_length, hdone, Nat.zero_add]
  simp only [Eefs.writeChunk] at hn ⊢
  rw [hn]

/-- Two handles that agree do the same inside the sector at hand. -/
theorem Handle.Agrees.write (h : fh.Agrees fh') (hmode : fh.filemode = .write) {data : List UInt8}
    (hin : fh.Inside c data.length) :
    let r := s.eepromfsWrite c fh data
    let r' := s.eepromfsWrite c fh' data
    r.1 = r'.1 ∧ r.2.1 = r'.2.1 ∧ r.2.2.2 = r'.2.2.2 ∧ r.2.2.1.Agrees r'.2.2.1 ∧
      ∀ len, fh.Inside c (data.length + len) → r.2.2.1.Inside c len := by
  have hmode' := h.filemode.trans hmode
  by_cases hdata : data = []
  · subst hdata
    rw [write_nil hmode, write_nil hmode']
    exact ⟨rfl, rfl, rfl, h, fun len hlen => by simpa using hlen⟩
  · have hpos := List.length_pos_iff.mpr hdata
    obtain ⟨hoff, hfits⟩ := hin.resolve_left (by omega)
    have hsector := h.sector (.inl hoff)
    have hsoffset := h.curSoffset
    have hsize := h.size
    have hcur : fh'.curOffset = fh.curOffset := by rw [h.eq]
    have hentry := h.entry
    have hcurEntry : fh'.curEntry = fh.curEntry := by rw [h.eq]
    rw [write_inside hmode hdata hoff hfits,
      write_inside hmode' hdata (by rwa [hsoffset]) (by rwa [hsoffset])]
    refine ⟨rfl, rfl, by simp only [hsector, hsoffset], ⟨?_, fun _ => hsector, fun hr => ?_⟩,
      fun len hlen => ?_⟩
    · simp only [hsize, hsoffset, hcur, hentry, hcurEntry, h.filemode]
    · exact absurd (hr.symm.trans hmode) (by simp)
    · obtain ⟨-, hall⟩ := hlen.resolve_left (by omega)
      by_cases hzero : len = 0
      · exact .inl hzero
      · have hmod : (fh.curSoffset + data.length) % c.sectorSize = fh.curSoffset + data.length :=
          Nat.mod_eq_of_lt (by omega)
        refine .inr ⟨?_, ?_⟩ <;> simp only [hmod] <;> omega

/-- What an append-open makes of a file: a handle that agrees with one in step with the directory,
and that is in step itself if the last entry of the file lists one sector. -/
structure Reopened (c : Config) (s : Eefs) (g : Places) (i : ℕ) (fh fh' : Handle) : Prop where
  agrees : fh.Agrees fh'
  writer : fh'.Writer c (s.table c) g
  tied : fh'.Tied c (s.table c) g (blocks c fh'.size)
  filemode : fh.filemode = .write
  entry : fh.entry = i
  size : fh.size = (s.entry c i).size
  offset : fh.curSoffset = fh.size % c.sectorSize
  curSindex : fh.curSindex = 0
  curSector_lt : fh.curSector < 256
  single : 0 < blocks c fh.size → index (blocks c fh.size - 1) = 0 → fh' = fh

theorem spans_base_zero {p : ℕ} (h : spans (base p) = p + 1) : p = 0 := by
  by_contra hne
  obtain ⟨q, rfl⟩ := Nat.exists_eq_succ_of_ne_zero hne
  have hprev := base_succ q
  have hspans := spans_base (p := q) (j := if q = 0 then 12 else 30) le_rfl
    (by split <;> omega)
  rw [← hprev] at hspans
  have heq := hspans.symm.trans h
  omega

theorem Entry.size_lt (e : Entry) : e.size < 65536 := by
  have hlow := (e 28).toNat_lt
  have hhigh := (e 29).toNat_lt
  rw [Entry.size]
  omega

theorem open_append (hs : (s.table c).Sound c g) {i : ℕ} {name : Name} (hfile : s.IsFile c i name)
    (htrim : s.Trimmed c i) :
    ∃ fh buffer fh', s.eepromfsOpen c name .append = (.ok, fh, s.setBuffer buffer) ∧
      Reopened c s g i fh fh' := by
  obtain ⟨hlive, hlist, hname⟩ := Eefs.isFile_table.mp hfile
  obtain ⟨hown, hpos⟩ := hs.links.root i hlive hlist
  have hlt := hfile.1.1
  have hent := c.entries_lt
  have hdir := Eefs.dir_table (s := s) hlt
  obtain ⟨buffer, heq, ⟨-, hnone⟩ | ⟨hfound, hbuffer⟩⟩ := Eefs.findEntry_cases c s name
  · exact absurd hfile (hnone i)
  obtain ⟨hlive', hlist', hname'⟩ := Eefs.isFile_table.mp hfound
  have hi : (s.findEntry c name).1 = i :=
    hs.files.names _ _ hlive' hlive hlist' hlist (hname'.trans hname.symm)
  rw [hi] at hbuffer
  obtain ⟨e, hlastEq, hlast, hlen, hsectors⟩ := lastEntry_last (s := s.setBuffer buffer)
    hs 257 hlive (hown.symm ▸ hlive) hbuffer (by omega)
  have hlast' : (s.table c).Last g i e := hown ▸ hlast
  rw [hpos] at hlen hsectors
  have helt := hs.links.bound e hlast'.live
  have hedir := Eefs.dir_table (s := s) helt
  obtain ⟨hspans, hblocks⟩ := htrim
  set len := ((s.table c).dir e).leading.length with hlenDef
  have hsum : blocks c (s.entry c i).size = base (g.pos e) + len := by
    have hsum : (chainSectors (s.entry c) 257 i).length + base 0 = base (g.pos e) + len := hsectors
    have hzero : base 0 = 0 := rfl
    omega
  have hcount : spans (base (g.pos e) + len) = g.pos e + 1 := by
    have hlen' : (chain (s.entry c) 257 i).length + 0 = g.pos e + 1 := hlen
    rw [← hsum]
    omega
  have hlenle : len ≤ ((s.table c).dir e).maxSectors := (Table.leading_eq _).2
  have hmax := hs.links.maxSectors_eq hlast'.live
  have hle30 := ((s.table c).dir e).maxSectors_le
  have hstart : len = 0 → g.pos e = 0 := by
    intro hzero
    rw [hzero] at hcount
    exact spans_base_zero hcount
  have hsize := (s.entry c i).size_lt
  have hmod : ((len + 255) % 256 + 1) % 256 = len := by omega
  refine ⟨{ Handle.zero with
    size := (s.entry c i).size
    curOffset := (s.entry c i).size
    entry := i
    curSector := ((s.table c).dir e).sector (len - 1)
    curSoffset := (s.entry c i).size % c.sectorSize
    curEntry := e
    filemode := .write }, s.entry c e, { Handle.zero with
    size := (s.entry c i).size
    curOffset := (s.entry c i).size
    entry := i
    curSector := if len = 0 then 0 else ((s.table c).dir e).sector (len - 1)
    curSoffset := (s.entry c i).size % c.sectorSize
    curEntry := e
    curSindex := (len + 255) % 256
    filemode := .write }, ?_, ⟨⟨rfl, fun hoff => ?_, by simp⟩, ?_, ?_, rfl, rfl, rfl, rfl, rfl,
      Entry.sector_lt _ _, ?_⟩⟩
  · simp only [Eefs.eepromfsOpen, heq, hi]
    rw [if_neg (by omega), Eefs.openAppend, hlastEq]
    simp only [hbuffer, hlenDef, hedir]
    rfl
  · -- an empty file has no sector and no offset in one
    have hne : len ≠ 0 := by
      intro hzero
      rw [hzero, hstart hzero] at hsum
      have hblocks0 : blocks c (s.entry c i).size = 0 := hsum
      rcases hoff with hoff | hsector
      · by_cases hsz : (s.entry c i).size = 0
        · exact hoff (by simp [hsz])
        · have hone := blocks_lt (c := c) (Nat.zero_mod _) (Nat.pos_of_ne_zero hsz)
          omega
      · rw [hzero] at hsector
        have hmaxpos := ((s.table c).dir e).maxSectors_pos
        have hlt := hs.listing.lt_leading ⟨hlast'.live, hmaxpos, rfl, hsector⟩
        omega
    simp only [if_neg hne]
  · refine ⟨hlt, helt, hs.links.used i hlive, hs.links.used e hlast'.live, hown, hlast'.own,
      fun _ => hlist, fun j hj hjown => hlast'.pos_le hs hlive hj hjown, fun _ => hlast'.live, ?_,
      Nat.mod_lt _ c.sectorSize_pos, hsize, fun _ => ?_⟩
    · by_cases hzero : len = 0
      · simp only [if_pos hzero]
        exact c.sectors_pos
      · simp only [if_neg hzero]
        have hlisted : (s.table c).Listed e (len - 1) (((s.table c).dir e).sector (len - 1)) :=
          ⟨hlast'.live, by omega, rfl, Table.sector_leading (by omega)⟩
        exact (hs.listing.valid _ _ _ hlisted).1
    · have hholds := hs.files.sizes i hlive hlist
      rwa [hdir] at hholds
  · refine ⟨fun _ => ?_, fun _ => ?_, fun _ hzero => ?_, fun _ => rfl, fun _ hpos' => ?_⟩
    · simp only [hmod]
      refine ⟨hlenle, fun j hj => ⟨fun hne => ?_, fun hjlt => Table.sector_leading hjlt⟩⟩
      exact hs.listing.lt_leading ⟨hlast'.live, hj, rfl, hne⟩
    · simp only [hmod]
      exact hsum
    · simp only [hmod] at hzero
      exact hstart hzero
    · simp only [hmod] at hpos' ⊢
      rw [if_neg (by omega)]
  · intro hpos' hindex
    have hone : len = 1 := by
      simp only [hsum] at hpos' hindex
      have hne : len ≠ 0 := by
        intro hzero
        rw [hzero, hstart hzero] at hpos'
        exact absurd hpos' (by decide)
      rw [Nat.add_sub_assoc (by omega), (hops_base (by omega)).2] at hindex
      omega
    simp only [hone, one_ne_zero, if_false]
    rfl

/-- What an append handles: no bytes, bytes that fit into the last sector, or any number of bytes if
the last entry of the file lists one sector. -/
def Appendable (c : Config) (size len : ℕ) : Prop :=
  len = 0 ∨ size % c.sectorSize ≠ 0 ∧ size % c.sectorSize + len ≤ c.sectorSize ∨
    0 < blocks c size ∧ index (blocks c size - 1) = 0

instance (size len : ℕ) : Decidable (Appendable c size len) := inferInstanceAs (Decidable (_ ∨ _ ∨ _))

theorem Reopened.fits {i len : ℕ} (h : Reopened c s g i fh fh') (happ : Appendable c fh.size len) :
    fh' = fh ∨ fh.Inside c len := by
  rcases happ with hzero | hin | ⟨hpos, hindex⟩
  · exact .inr (.inl hzero)
  · rw [← h.offset] at hin
    exact .inr (.inr hin)
  · exact .inl (h.single hpos hindex)

section Astray

variable {t : Table} {e i o k y : ℕ}

/-- A handle from an append-open that has not left the sector at hand, after `k` bytes from offset `o`
on. -/
structure Handle.Inert (c : Config) (t : Table) (e i o k : ℕ) (s : Eefs) (fh : Handle) : Prop where
  table : s.table c = t
  curEntry : fh.curEntry = e
  curSindex : fh.curSindex = 0
  curSector_lt : fh.curSector < 256
  entry : fh.entry = i
  start_lt : o < c.sectorSize
  offset : fh.curSoffset = (o + k) % c.sectorSize
  inside : k = 0 ∨ o ≠ 0 ∧ o + k ≤ c.sectorSize

/-- A sector `y` that was free has been written to the second place of entry `e`. -/
structure Handle.Misled (c : Config) (t : Table) (e i : ℕ) (y : ℕ) (s : Eefs) (fh : Handle) : Prop where
  live : (s.table c).Live e
  used : s.entryUsed e = true
  first : ((s.table c).dir e).sector 0 = (t.dir e).sector 0
  second : ((s.table c).dir e).sector 1 = y
  curEntry_lt : fh.curEntry < c.entries
  entry : fh.entry = i
  offset : fh.curSoffset < c.sectorSize
  sindex : fh.curEntry = e → 1 ≤ fh.curSindex ∧ fh.curSindex < 30

/-- The places of an entry that are written later are behind the second one. -/
theorem Handle.Misled.addSector (h : fh.Misled c t e i y s) (hok : (s.addSector c fh).1 = .ok) :
    (s.addSector c fh).2.1.Misled c t e i y (s.addSector c fh).2.2 := by
  have hadded := Eefs.added_addSector c s h.curEntry_lt
  generalize s.addSector c fh = r at hadded hok
  cases hadded with
  | hung => cases hok
  | diskFull => cases hok
  | dirFull => cases hok
  | @recorded sector s' hsome hsector hlt htable =>
    have hmax := ((s.table c).dir fh.curEntry).maxSectors_le
    have hused : (s.table c).usedEntry e = true := h.used
    have hsame : (s'.table c).Live e ∧ ∀ j < 2, ((s'.table c).dir e).sector j =
        ((s.table c).dir e).sector j := by
      rw [htable, Table.Live]
      by_cases hcur : fh.curEntry = e
      · obtain ⟨hlo, hhi⟩ := h.sindex hcur
        rw [hcur, Table.dir_set_self, Entry.deleted_setSector (by omega)]
        exact ⟨h.live, fun j hj => Entry.sector_setSector_ne (by omega) (by omega) (by omega)⟩
      · rw [Table.dir_set_ne (Ne.symm hcur), Table.dir_mark]
        exact ⟨h.live, fun _ _ => rfl⟩
    refine ⟨hsame.1, ?_, (hsame.2 0 (by omega)).trans h.first, (hsame.2 1 (by omega)).trans h.second,
      h.curEntry_lt, h.entry, h.offset, fun hcur => ?_⟩
    · rw [Eefs.entryUsed_table (c := c), htable]
      exact hused
    · obtain ⟨hlo, hhi⟩ := h.sindex hcur
      show 1 ≤ (fh.curSindex + 1) % 256 ∧ (fh.curSindex + 1) % 256 < 30
      omega
  | @extended sector n s' hsome hsector hn hfree hge htable =>
    have hne : e ≠ n := by
      rintro rfl
      rw [h.used] at hfree
      cases hfree
    have hused : (s.table c).usedEntry e = true := h.used
    have hsame : (s'.table c).Live e ∧ ∀ j < 30, ((s'.table c).dir e).sector j =
        ((s.table c).dir e).sector j := by
      rw [htable, Table.Live, Table.dir_set_ne hne, Table.dir_mark]
      by_cases hcur : e = fh.curEntry
      · subst hcur
        rw [Table.dir_set_self, Entry.deleted_setNextentry]
        exact ⟨h.live, fun j hj => Entry.sector_setNextentry hj⟩
      · rw [Table.dir_set_ne hcur, Table.dir_take]
        exact ⟨h.live, fun _ _ => rfl⟩
    refine ⟨hsame.1, ?_, (hsame.2 0 (by omega)).trans h.first, (hsame.2 1 (by omega)).trans h.second, hn,
      h.entry, h.offset, fun heq => absurd heq.symm hne⟩
    rw [Eefs.entryUsed_table (c := c), htable]
    exact (Table.usedEntry_take_ne hne).trans hused

/-- The first sector that is added goes to the second place of the entry, since the handle does not
know how many sectors the entry lists. -/
theorem Handle.Inert.addSector (h : fh.Inert c (s.table c) e i o k s) (hlive : (s.table c).Live e)
    (he : e < c.entries) (hused : (s.table c).usedEntry e = true)
    (hok : (s.addSector c fh).1 = .ok) :
    ∃ y, y ≠ 255 ∧ s.sectorUsed y = false ∧
      (s.addSector c fh).2.1.Misled c (s.table c) e i y (s.addSector c fh).2.2 := by
  have hcur := h.curEntry
  have hsindex := h.curSindex
  have hpos : 12 ≤ ((s.table c).dir e).maxSectors := by
    unfold Entry.maxSectors
    split <;> omega
  have hoff := Nat.mod_lt (o + k) c.sectorSize_pos
  have hadded := Eefs.added_addSector c s (hcur.symm ▸ he)
  generalize s.addSector c fh = r at hadded hok
  cases hadded with
  | hung => cases hok
  | diskFull => cases hok
  | dirFull => cases hok
  | @recorded sector s' hsome hsector hlt htable =>
    have hfree : s.sectorUsed sector = false := Bitmap.getBit_of_scanFree hsome hsector
    have hsmall : sector < 256 := Bitmap.scanFree_lt h.curSector_lt hsome
    have hone : (fh.curSindex + 1) % 256 = 1 := by omega
    rw [hone, hcur] at htable
    refine ⟨sector, hsector, hfree, ?_, ?_, ?_, ?_, hcur.symm ▸ he, h.entry, ?_, fun _ => ?_⟩
    · rw [htable, Table.Live, Table.dir_set_self, Entry.deleted_setSector (by omega)]
      exact hlive
    · rw [Eefs.entryUsed_table (c := c), htable]
      exact hused
    · rw [htable, Table.dir_set_self]
      exact Entry.sector_setSector_ne (by omega) (by omega) (by omega)
    · rw [htable, Table.dir_set_self]
      exact Entry.sector_setSector_self hsmall
    · show fh.curSoffset < c.sectorSize
      rwa [h.offset]
    · show 1 ≤ (fh.curSindex + 1) % 256 ∧ (fh.curSindex + 1) % 256 < 30
      omega
  | extended _ _ _ _ hge =>
    rw [hcur] at hge
    omega

/-- A handle from an append-open has not left the sector at hand, or has gone astray. -/
def Handle.Astray (c : Config) (t : Table) (e i o k : ℕ) (s : Eefs) (fh : Handle) : Prop :=
  fh.Inert c t e i o k s ∨ ∃ y, y ≠ 255 ∧ t.usedSector y = false ∧ fh.Misled c t e i y s

theorem Handle.Astray.write (h : fh.Astray c t e i o k s) (hlive : t.Live e) (he : e < c.entries)
    (hused : t.usedEntry e = true) (data : List UInt8) (hok : (s.eepromfsWrite c fh data).1 = .ok) :
    (s.eepromfsWrite c fh data).2.2.1.Astray c t e i o (k + data.length)
      (s.eepromfsWrite c fh data).2.2.2 := by
  have hss := c.sectorSize_lt
  by_cases hmode : fh.filemode = .write
  · rw [Eefs.eepromfsWrite, if_neg (by simpa using hmode)] at hok ⊢
    have hrule := Eefs.writeLoop_rule (c := c)
      (I := fun s fh rest _ => ∃ n ≤ data.length, rest = data.drop n ∧ fh.Astray c t e i o (k + n) s)
      (J := fun s fh rest _ => ∃ n ≤ data.length, rest = data.drop n ∧
        fh.Astray c t e i o (k + n) s ∧ (fh.Inert c t e i o (k + n) s → fh.curSoffset ≠ 0))
      (F := fun _ _ _ _ => True) ?_ ?_ ?_ (s := s) (w := 0)
      ⟨0, Nat.zero_le _, rfl, h⟩ (Nat.le_refl data.length)
    · rcases hrule with ⟨-, n, hn, hrest, hend⟩ | ⟨hfail, -⟩
      · have hlen := congrArg List.length hrest
        rw [List.length_drop, List.length_nil] at hlen
        rwa [show n = data.length by omega] at hend
      · exact absurd hok hfail
    · rintro s fh rest w ⟨n, hn, hrest, hstray⟩ - hoff
      by_cases hadd : (s.addSector c fh).1 = .ok
      · refine .inl ⟨hadd, n, hn, hrest, ?_⟩
        rcases hstray with hinert | ⟨y, hy, hfree, hmis⟩
        · obtain rfl := hinert.table
          obtain ⟨y, hy, hfree, hmis⟩ := hinert.addSector hlive he hused hadd
          refine ⟨.inr ⟨y, hy, hfree, hmis⟩, fun hin => ?_⟩
          -- the cursor has moved on
          have hzero := hin.curSindex
          have hone := (hmis.sindex hin.curEntry).1
          omega
        · refine ⟨.inr ⟨y, hy, hfree, hmis.addSector hadd⟩, fun hin => ?_⟩
          have hzero := hin.curSindex
          have hone := ((hmis.addSector hadd).sindex hin.curEntry).1
          omega
      · exact .inr ⟨hadd, trivial⟩
    · rintro s fh rest w ⟨n, hn, hrest, hstray⟩ hoff
      exact ⟨n, hn, hrest, hstray, fun _ => hoff⟩
    · rintro s fh rest w ⟨n, hn, hrest, hstray, hmid⟩ hne
      have hlt : fh.curSoffset < c.sectorSize := by
        rcases hstray with hinert | ⟨y, -, -, hmis⟩
        · rw [hinert.offset]
          exact Nat.mod_lt _ c.sectorSize_pos
        · exact hmis.offset
      have hchunk := chunk_writeChunk (c := c) (s := s) hlt hne
      generalize (s.writeChunk c fh rest).1 = q at hchunk ⊢
      generalize (s.writeChunk c fh rest).2.2 = s' at hchunk ⊢
      generalize (s.writeChunk c fh rest).2.1 = fh' at hchunk ⊢
      have hqle := hchunk.le
      rw [hrest, List.length_drop] at hqle
      have htable : s'.table c = s.table c := by rw [hchunk.fs, Eefs.table_writeData]
      have hused' : s'.entryUsed = s.entryUsed := congrArg Table.usedEntry htable
      refine ⟨hchunk.pos, n + q, by omega, by rw [hrest, List.drop_drop], ?_⟩
      rcases hstray with hinert | ⟨y, hy, hfree, hmis⟩
      · have hmid' := hmid hinert
        have hfits := hchunk.fits
        have hoffset := hinert.offset
        have hstart := hinert.start_lt
        have hsum : o + (k + n) < c.sectorSize := by
          rcases hinert.inside with hzero | ⟨-, hle⟩
          · omega
          · refine lt_of_le_of_ne hle fun heq => ?_
            rw [heq, Nat.mod_self] at hoffset
            exact hmid' hoffset
        rw [Nat.mod_eq_of_lt hsum] at hoffset
        have hne0 : o ≠ 0 := by
          rcases hinert.inside with hzero | ⟨ho, -⟩
          · omega
          · exact ho
        refine .inl ⟨htable.trans hinert.table, ?_, ?_, ?_, ?_, hstart, ?_, .inr ⟨hne0, by omega⟩⟩ <;>
          rw [hchunk.handle]
        · exact hinert.curEntry
        · exact hinert.curSindex
        · exact hinert.curSector_lt
        · exact hinert.entry
        · simp only [hoffset]
          congr 1
          omega
      · refine .inr ⟨y, hy, hfree, ⟨?_, ?_, ?_, ?_, ?_, ?_, ?_, ?_⟩⟩
        all_goals first | rw [htable] | rw [hused'] | rw [hchunk.handle]
        · exact hmis.live
        · exact hmis.used
        · exact hmis.first
        · exact hmis.second
        · exact hmis.curEntry_lt
        · exact hmis.entry
        · exact Nat.mod_lt _ c.sectorSize_pos
        · exact hmis.sindex
  · rw [Eefs.eepromfsWrite, if_pos hmode] at hok
    cases hok

end Astray

namespace Machine

variable {m : Machine}

/-- A file opened for appending through handle `h`, some chunks written to it, and closed. -/
def append (c : Config) (m : Machine) (h : ℕ) (name : Name) (chunks : List (List UInt8)) :
    List Reply × Machine :=
  run (step c) m (.open h name .append :: (chunks.map (.write h) ++ [.close h]))

/-- The replies and the machine after chunks for which there is room were written. -/
theorem writes_room (h : ℕ) (chunks : List (List UInt8)) (hs : (m.fs.table c).Sound c g)
    (hag : (m.handle h).Agrees fh') (hw : fh'.Writer c (m.fs.table c) g)
    (ht : fh'.Tied c (m.fs.table c) g (blocks c fh'.size)) (hmode : fh'.filemode = .write)
    (hlive : (m.fs.table c).Live fh'.entry) (hroom : m.fs.Room c fh'.size chunks.flatten.length)
    (hfits : fh' = m.handle h ∨ (m.handle h).Inside c chunks.flatten.length) :
    let r := run (step c) m (chunks.map (.write h))
    (∀ a ∈ r.1, a.status = .ok) ∧ ∃ g' fh'', (r.2.handle h).Agrees fh'' ∧
      Written c m.fs g fh' chunks.flatten chunks.flatten.length r.2.fs g' fh'' ∧
      fh''.Tied c (r.2.fs.table c) g' (blocks c fh''.size) := by
  induction chunks generalizing m g fh' with
  | nil => exact ⟨by simp [run], g, fh', hag, .refl hs hw _, ht⟩
  | cons data chunks ih =>
    rw [List.flatten_cons, List.length_append] at hroom hfits
    have hblocks : blocks c fh'.size ≤ blocks c (fh'.size + data.length) := blocks_mono (by omega)
    have hblocks' : blocks c (fh'.size + data.length) ≤
        blocks c (fh'.size + (data.length + chunks.flatten.length)) := blocks_mono (by omega)
    have hspans := spans_mono hblocks
    have hspans' := spans_mono hblocks'
    have hsectors := hroom.sectors
    have hentries := hroom.entries
    obtain ⟨hok, g', hwritten, htied, hused, hcount⟩ :=
      write_room hs hw ht hmode hlive data ⟨by omega, by omega⟩
    have hsize := (hwritten.filled hlive).size
    -- the handle of the machine does what the one in step does
    obtain ⟨hst, hfs, hag', hfits'⟩ : (m.step c (.write h data)).1.status = .ok ∧
        (m.step c (.write h data)).2.fs = (m.fs.eepromfsWrite c fh' data).2.2.2 ∧
        ((m.step c (.write h data)).2.handle h).Agrees (m.fs.eepromfsWrite c fh' data).2.2.1 ∧
        ((m.fs.eepromfsWrite c fh' data).2.2.1 = (m.step c (.write h data)).2.handle h ∨
          ((m.step c (.write h data)).2.handle h).Inside c chunks.flatten.length) := by
      have hself : (m.step c (.write h data)).2.handle h =
          (m.fs.eepromfsWrite c (m.handle h) data).2.2.1 := handle_set_self
      rw [hself]
      rcases hfits with rfl | hin
      · exact ⟨hok, rfl, .refl _, .inl rfl⟩
      · have hin' : (m.handle h).Inside c data.length := by
          rcases hin with hzero | ⟨hoff, hle⟩
          · exact .inl (by omega)
          · exact .inr ⟨hoff, by omega⟩
        obtain ⟨h1, -, h3, h4, h5⟩ := hag.write (s := m.fs) (hag.filemode.symm.trans hmode) hin'
        exact ⟨h1.trans hok, h3, h4, .inr (h5 _ hin)⟩
    rw [← hfs] at hwritten htied hused hcount
    have hprog := hwritten.progress
    have hrest := ih (m := (m.step c (.write h data)).2) hprog.sound hag' hprog.writer htied (hprog.filemode.trans hmode)
      (hprog.entry ▸ hprog.live _ hlive) ?_ hfits'
    · obtain ⟨hoks, g'', fh'', hag'', hwritten'', htied''⟩ := hrest
      rw [List.map_cons, run, List.flatten_cons, List.length_append]
      refine ⟨?_, g'', fh'', hag'', hwritten.append hwritten'', htied''⟩
      rintro a (_ | ⟨_, hmem⟩)
      · exact hst
      · exact hoks a hmem
    · rw [hsize] at hused hcount ⊢
      rw [← Nat.add_assoc] at hsectors hentries hblocks' hspans'
      exact ⟨by omega, by omega⟩

/-- What an append is to do: the file has the bytes behind those that it had, the other files are as
before, no sector is dropped from the directory or gets out of reach of the loops that stop at the
first free place of an entry, the file has the entries and sectors that its size needs, and no
assertion fails and no loop hangs. -/
structure Appends (c : Config) (m : Machine) (h : ℕ) (name : Name) (xs : List UInt8)
    (chunks : List (List UInt8)) : Prop where
  ok : ∀ r ∈ (m.append c h name chunks).1, r.status = .ok
  content : (m.append c h name chunks).2.Delivers c name (xs ++ chunks.flatten)
  others : ∀ other bytes, other ≠ name → m.Delivers c other bytes →
    (m.append c h name chunks).2.Delivers c other bytes
  kept : ∀ i j x, (m.fs.table c).Listed i j x →
    ((m.append c h name chunks).2.fs.table c).Listed i j x
  front : ∀ i j x, ((m.append c h name chunks).2.fs.table c).Listed i j x →
    x ∈ (((m.append c h name chunks).2.fs.table c).dir i).leading
  trimmed : ∀ i, (m.append c h name chunks).2.fs.IsFile c i name →
    (m.append c h name chunks).2.fs.Trimmed c i
  markFault : (m.append c h name chunks).2.fs.markFault = m.fs.markFault
  hung : (m.append c h name chunks).2.fs.hung = m.fs.hung

/-- A file has one content. -/
theorem Delivers.unique {name : Name} {bytes bytes' : List UInt8} (h : m.Delivers c name bytes)
    (h' : m.Delivers c name bytes') : bytes = bytes' := by
  have heq := (h.bytes 0 [bytes.length + bytes'.length]).symm.trans
    (h'.bytes 0 [bytes.length + bytes'.length])
  rwa [List.take_of_length_le (by simp), List.take_of_length_le (by simp)] at heq

theorem stored_of_delivers (hs : (m.fs.table c).Sound c g) {name : Name} {bytes : List UInt8}
    (h : m.Delivers c name bytes) : ∃ i, m.fs.Stored c g i name bytes := by
  obtain ⟨i, hfile, -⟩ := h.size
  obtain ⟨bytes', hstored⟩ := exists_stored hs hfile
  obtain rfl := h.unique (delivers_of_stored hs hstored)
  exact ⟨i, hstored⟩

theorem appends_of_room (hs : (m.fs.table c).Sound c g) (h : ℕ) {i : ℕ} {name : Name}
    {xs : List UInt8} {chunks : List (List UInt8)} (hfile : m.fs.IsFile c i name)
    (hxs : m.Delivers c name xs) (htrim : m.fs.Trimmed c i)
    (hroom : m.fs.Room c xs.length chunks.flatten.length)
    (happ : Appendable c xs.length chunks.flatten.length) : m.Appends c h name xs chunks := by
  obtain ⟨j, hstored⟩ := stored_of_delivers hs hxs
  have hlinks := hs.links
  obtain ⟨hlive, hlist, hname⟩ := Eefs.isFile_table.mp hfile
  obtain ⟨hlivej, hlistj, hnamej⟩ := Eefs.isFile_table.mp hstored.file
  obtain rfl : i = j := hs.files.names i j hlive hlivej hlist hlistj (hname.trans hnamej.symm)
  obtain ⟨fh, buffer, fh', hopen, hre⟩ := open_append hs hfile htrim
  have hlen : fh.size = xs.length := by
    rw [hre.size, ← Eefs.dir_table hfile.1.1, hstored.size]
  have hmode' := hre.agrees.filemode.trans hre.filemode
  have hentry' := hre.agrees.entry.trans hre.entry
  have hsize' := hre.agrees.size.trans hlen
  have hstep : m.step c (.open h name .append) =
      (Reply.of .ok, m.set h fh false (m.fs.setBuffer buffer)) := by
    simp only [step, hopen]
  have hself : (m.set h fh false (m.fs.setBuffer buffer)).handle h = fh := handle_set_self
  have hroom' : (m.fs.setBuffer buffer).Room c fh'.size chunks.flatten.length := by
    rw [hsize']
    exact ⟨hroom.sectors, hroom.entries⟩
  obtain ⟨hoks, g', fh'', hag, hwritten, htied⟩ := writes_room (m := m.set h fh false (m.fs.setBuffer buffer))
    h chunks hs (hself.symm ▸ hre.agrees) hre.writer hre.tied hmode'
    (hentry'.symm ▸ hlive) hroom' (hself.symm ▸ hre.fits (hlen.symm ▸ happ))
  generalize hr : run (step c) (m.set h fh false (m.fs.setBuffer buffer)) (chunks.map (.write h)) = r
    at hoks hag hwritten htied
  have hprog := hwritten.progress
  have hfilled := hwritten.filled (show (m.fs.table c).Live fh'.entry from hentry'.symm ▸ hlive)
  have hentry : (r.2.handle h).entry = i := hag.entry.symm.trans (hprog.entry.trans hentry')
  have hsize : fh''.size = (r.2.handle h).size := hag.size
  have hmode : (r.2.handle h).filemode ≠ .read := by
    rw [← hag.filemode, hprog.filemode, hmode']
    simp
  obtain ⟨s', hclose, hquiet, htable, -⟩ := Eefs.close_write (s := r.2.fs) hmode
    (hentry.symm ▸ hfile.1.1)
  have hset := hprog.writer.close hprog.sound
  rw [hag.entry, hag.size, ← htable] at hset
  have heq : m.append c h name chunks =
      (Reply.of .ok :: (r.1 ++ [Reply.of .ok]),
        r.2.set h { r.2.handle h with filemode := .read } false s') := by
    rw [append, run, hstep, run_append, hr]
    simp only [run, step, hclose]
  have hsame : ∀ k, k ≠ i → (s'.table c).dir k = (r.2.fs.table c).dir k := by
    intro k hk
    rw [htable, hentry, Table.dir_set_ne hk]
  have hself' : (s'.table c).dir i = ((r.2.fs.table c).dir i).setSize fh''.size := by
    rw [htable, hentry, Table.dir_set_self, hsize]
  have hstill : (s'.table c).Live i ∧ ((s'.table c).dir i).isListentry = false ∧
      ((s'.table c).dir i).name = name := by
    obtain ⟨hlist', hname', -⟩ := hprog.files i hlive hlist
    have hlive' : (r.2.fs.table c).Live i := hprog.live i hlive
    rw [Table.Live, hself', Entry.deleted_setSize, Entry.isListentry_setSize, Entry.name_setSize]
    exact ⟨hlive', hlist', hname'.trans hname⟩
  refine ⟨?_, ?_, ?_, ?_, ?_, ?_, ?_, ?_⟩
  · rw [heq]
    intro a ha
    rw [List.mem_cons, List.mem_append, List.mem_singleton] at ha
    rcases ha with rfl | hmem | rfl
    · rfl
    · exact hoks a hmem
    · rfl
  · rw [heq]
    refine delivers_of_stored (r := i) hset.1 ⟨Eefs.isFile_table.mpr hstill, ?_, ?_⟩
    · show ((s'.table c).dir i).size = _
      rw [hself', Entry.size_setSize hprog.writer.size_lt, hfilled.size, hsize', List.length_append]
    · have hown := hfilled.own xs hsize'.symm (hentry'.symm ▸ hstored.content)
      rw [List.take_length, hentry'] at hown
      exact hown.grow hset.2 hquiet.data
  · rw [heq]
    intro other bytes hne hd
    obtain ⟨k, hk⟩ := stored_of_delivers hs hd
    obtain ⟨hlivek, hlistk, hnamek⟩ := Eefs.isFile_table.mp hk.file
    have hki : k ≠ i := by
      rintro rfl
      exact hne (hnamek.symm.trans hname)
    have hdir : (s'.table c).dir k = (m.fs.table c).dir k := by
      refine (hsame k hki).trans (hprog.frame.same k (hlinks.used k hlivek) ?_)
      rw [hentry', (hlinks.root k hlivek hlistk).1]
      exact hki
    exact delivers_of_stored hset.1 (Session.stored_of_dir hk hdir
      ((hfilled.others k bytes (hentry'.symm ▸ hki) hk.content).grow hset.2 hquiet.data))
  · rw [heq]
    intro k j x hx
    exact hset.2.listed k j x (hprog.grows.listed k j x hx)
  · rw [heq]
    intro k j x hx
    exact (hset.1.listing.mem_leading hx.live).mpr ⟨j, hx⟩
  · rw [heq]
    intro k hk
    obtain ⟨hlivek, hlistk, hnamek⟩ := Eefs.isFile_table.mp hk
    obtain ⟨hlive', hlist', hname'⟩ := hstill
    obtain rfl : k = i := hset.1.files.names k i hlivek hlive' hlistk hlist' (hnamek.trans hname'.symm)
    have hsize'' : (s'.entry c k).size = fh''.size := by
      rw [← Eefs.dir_table hfile.1.1, hself', Entry.size_setSize hprog.writer.size_lt]
    have hentry'' : fh''.entry = k := hprog.entry.trans hentry'
    have hsl : (r.2.fs.table c).SameLinks (s'.table c) := by
      rw [htable]
      exact .set Entry.deleted_setSize Entry.isListentry_setSize Entry.nextentry_setSize
    have htied' := htied.congr_sectors hprog.writer hsl (fun hl j hj => ?_)
    · have hchain := htied'.trimmed hset.1 (hprog.writer.congr hsl hset.2) (hentry''.symm ▸ hlive')
      rw [hentry''] at hchain
      show Eefs.Trimmed c s' k
      rwa [Eefs.Trimmed, hsize'']
    · by_cases hcur : fh''.curEntry = k
      · have hmax : ((r.2.fs.table c).dir k).maxSectors = 12 := by
          rw [Entry.maxSectors, (hprog.files k hlive hlist).1]
          rfl
        rw [hcur] at hj ⊢
        rw [hself']
        exact Entry.sector_setSize (by omega)
      · rw [hsame _ hcur]
  · rw [heq]
    exact hquiet.markFault.trans hprog.markFault
  · rw [heq]
    exact hquiet.hung.trans hprog.hung

theorem astray_writes {t : Table} {e i o k h : ℕ} (chunks : List (List UInt8)) (hlive : t.Live e)
    (he : e < c.entries) (hused : t.usedEntry e = true)
    (hstray : (m.handle h).Astray c t e i o k m.fs)
    (hok : ∀ a ∈ (run (step c) m (chunks.map (.write h))).1, a.status = .ok) :
    ((run (step c) m (chunks.map (.write h))).2.handle h).Astray c t e i o
      (k + chunks.flatten.length) (run (step c) m (chunks.map (.write h))).2.fs := by
  induction chunks generalizing m k with
  | nil => exact hstray
  | cons data chunks ih =>
    rw [List.map_cons, run] at hok ⊢
    have hself : (m.step c (.write h data)).2.handle h =
        (m.fs.eepromfsWrite c (m.handle h) data).2.2.1 := handle_set_self
    have hnext := hstray.write hlive he hused data (hok _ List.mem_cons_self)
    rw [← hself] at hnext
    rw [List.flatten_cons, List.length_append, ← Nat.add_assoc]
    exact ih hnext fun a ha => hok a (List.mem_cons_of_mem _ ha)

/-- An append that does what it is to do is one of those. -/
theorem appendable_of_appends (hs : (m.fs.table c).Sound c g) {h i : ℕ} {name : Name}
    {xs : List UInt8} {chunks : List (List UInt8)} (hfile : m.fs.IsFile c i name)
    (hxs : m.Delivers c name xs) (htrim : m.fs.Trimmed c i) (happ : m.Appends c h name xs chunks) :
    Appendable c xs.length chunks.flatten.length := by
  obtain ⟨hlive, hlist, hname⟩ := Eefs.isFile_table.mp hfile
  obtain ⟨j, hstored⟩ := stored_of_delivers hs hxs
  obtain ⟨hlivej, hlistj, hnamej⟩ := Eefs.isFile_table.mp hstored.file
  obtain rfl : i = j := hs.files.names i j hlive hlivej hlist hlistj (hname.trans hnamej.symm)
  obtain ⟨fh, buffer, fh', hopen, hre⟩ := open_append hs hfile htrim
  have hlen : fh.size = xs.length := by
    rw [hre.size, ← Eefs.dir_table hfile.1.1, hstored.size]
  have hstep : m.step c (.open h name .append) =
      (Reply.of .ok, m.set h fh false (m.fs.setBuffer buffer)) := by
    simp only [step, hopen]
  have hcurEntry : fh'.curEntry = fh.curEntry := by rw [hre.agrees.eq]
  have hentry' := hre.agrees.entry.trans hre.entry
  have hcur : (m.fs.table c).Live fh.curEntry := hcurEntry ▸ hre.writer.curEntryLive (hentry'.symm ▸ hlive)
  have hcur_lt : fh.curEntry < c.entries := hs.links.bound _ hcur
  generalize hr : run (step c) (m.set h fh false (m.fs.setBuffer buffer)) (chunks.map (.write h)) = r
  have heq : m.append c h name chunks = (Reply.of .ok :: (r.1 ++ [Reply.of .ok]),
      r.2.set h (r.2.fs.eepromfsClose c (r.2.handle h)).1 false
        (r.2.fs.eepromfsClose c (r.2.handle h)).2) := by
    rw [append, run, hstep, run_append, hr]
    rfl
  obtain ⟨hok, -, -, hkept, hfront, -, -, -⟩ := happ
  rw [heq] at hok hkept hfront
  have hkept' : ∀ i j x, (m.fs.table c).Listed i j x →
    ((r.2.fs.eepromfsClose c (r.2.handle h)).2.table c).Listed i j x := hkept
  have hfront' : ∀ i j x, ((r.2.fs.eepromfsClose c (r.2.handle h)).2.table c).Listed i j x →
    x ∈ (((r.2.fs.eepromfsClose c (r.2.handle h)).2.table c).dir i).leading := hfront
  have hself : (m.set h fh false (m.fs.setBuffer buffer)).handle h = fh := handle_set_self
  have hstray := astray_writes (m := m.set h fh false (m.fs.setBuffer buffer)) (t := m.fs.table c)
    (e := fh.curEntry) (i := i) (o := fh.size % c.sectorSize) (k := 0) (h := h) chunks hcur
    hcur_lt (hs.links.used _ hcur)
    (.inl (hself.symm ▸ ⟨rfl, rfl, hre.curSindex, hre.curSector_lt, hre.entry,
      Nat.mod_lt _ c.sectorSize_pos, by rw [hre.offset, Nat.add_zero, Nat.mod_mod], .inl rfl⟩))
    (fun a ha => hok a (by rw [hr] at ha; simp [ha]))
  rw [hr, Nat.zero_add] at hstray
  rcases hstray with hinert | ⟨y, hy, hfree, hmis⟩
  · rw [← hlen]
    exact hinert.inside.imp_right fun hin => .inl hin
  · -- the second place of the entry holds a sector that was free
    have hsame : ((r.2.fs.eepromfsClose c (r.2.handle h)).2.table c).Live fh.curEntry ∧
        ∀ j < 2, (((r.2.fs.eepromfsClose c (r.2.handle h)).2.table c).dir fh.curEntry).sector j =
          ((r.2.fs.table c).dir fh.curEntry).sector j := by
      by_cases hmode : (r.2.handle h).filemode = .read
      · rw [Eefs.close_read hmode]
        exact ⟨hmis.live, fun _ _ => rfl⟩
      · obtain ⟨s', hclose, -, htable, -⟩ := Eefs.close_write (s := r.2.fs) hmode
          (hmis.entry.symm ▸ hfile.1.1)
        rw [hclose, htable, Table.Live]
        by_cases hce : fh.curEntry = (r.2.handle h).entry
        · rw [← hce, Table.dir_set_self, Entry.deleted_setSize]
          exact ⟨hmis.live, fun j hj => Entry.sector_setSize (by omega)⟩
        · rw [Table.dir_set_ne hce]
          exact ⟨hmis.live, fun _ _ => rfl⟩
    have hmax : ∀ e : Entry, 12 ≤ e.maxSectors := by
      intro e
      unfold Entry.maxSectors
      split <;> omega
    have hmax' := hmax (((r.2.fs.eepromfsClose c (r.2.handle h)).2.table c).dir fh.curEntry)
    have hfirst := (hsame.2 0 (by omega)).trans hmis.first
    have hsecond := (hsame.2 1 (by omega)).trans hmis.second
    have hlisted := hfront' fh.curEntry 1 y ⟨hsame.1, by omega, hsecond, hy⟩
    have hpos := List.length_pos_of_mem hlisted
    have hne := Table.sector_leading hpos
    rw [hfirst] at hne
    have hmaxT := hmax ((m.fs.table c).dir fh.curEntry)
    have hsome := hs.listing.lt_leading ⟨hcur, by omega, rfl, hne⟩
    by_cases htwo : 1 < ((m.fs.table c).dir fh.curEntry).leading.length
    · have hold : (m.fs.table c).Listed fh.curEntry 1 (((m.fs.table c).dir fh.curEntry).sector 1) :=
        ⟨hcur, by omega, rfl, Table.sector_leading htwo⟩
      have hused := (hs.listing.valid _ _ _ hold).2
      rw [← (hkept' _ _ _ hold).eq, hsecond, hfree] at hused
      cases hused
    · -- an entry with one sector: the handle is in step
      obtain ⟨hle, hfilled⟩ := hre.tied.filled (hcurEntry.symm ▸ hcur)
      have hcount := hre.tied.count (hentry'.symm ▸ hlive)
      rw [hcurEntry] at hle hfilled hcount
      have hleading := hs.listing.length_leading hcur hle hfilled
      have hone : (fh'.curSindex + 1) % 256 = 1 := by omega
      rw [hone, hre.agrees.size, hlen] at hcount
      refine .inr (.inr ⟨by omega, ?_⟩)
      rw [hcount, Nat.add_sub_cancel]
      exact (hops_base (p := g.pos fh.curEntry) (j := 0) (by split <;> omega)).2

/-- The handles agree with handles in step with the directory. -/
def Steady (c : Config) (m : Machine) (g : Places) : Prop :=
  ∃ handle, ({ m with handle } : Machine).Sound c g ∧ ∀ h, (m.handle h).Agrees (handle h)

/-- The calls under which files keep their bytes: no format while a file is open for writing, no
write through a handle whose last write failed, an append-open only of a file that was closed and
that no other handle writes to, and a write past the sector at hand only with the cursor at the end
of the file. -/
def Careful (c : Config) (m : Machine) : Call → Prop
  | .format => ∀ h, (m.handle h).filemode = .read
  | .open h name mode => mode = .append → ∀ i, m.fs.IsFile c i name → m.fs.Trimmed c i ∧
    ∀ k, k ≠ h → (m.handle k).filemode ≠ .read → (m.handle k).entry ≠ i
  | .write h data => m.failed h = false ∧
    ((m.handle h).Inside c data.length ∨ (m.handle h).AtEnd c m.fs)
  | _ => True

theorem Sound.steady (hm : m.Sound c g) : m.Steady c g := ⟨m.handle, hm, fun _ => .refl _⟩

/-- A call on handle `h` of a machine and on the handle that it agrees with. -/
theorem steady_set {handle : ℕ → Handle} (hag : ∀ k, (m.handle k).Agrees (handle k)) {h : ℕ}
    {failed : Bool} {fs : Eefs} (hfh : fh.Agrees fh')
    (hm : (({ m with handle } : Machine).set h fh' failed fs).Sound c g) :
    (m.set h fh failed fs).Steady c g := by
  refine ⟨Function.update handle h fh', hm, fun k => ?_⟩
  by_cases hk : k = h
  · subst hk
    rwa [handle_set_self, Function.update_self]
  · rw [handle_set_ne hk, Function.update_of_ne hk]
    exact hag k

/-- Nothing is asked of a handle that is not open for writing. -/
theorem Sound.set_read {h : ℕ} {failed : Bool} {fs : Eefs} (hm : (m.set h fh failed fs).Sound c g)
    (hread : fh'.filemode = .read) : (m.set h fh' failed fs).Sound c g := by
  have hset : (m.set h fh failed fs).set h fh' failed fs = m.set h fh' failed fs := by
    simp [set]
  rw [← hset]
  exact hm.keep rfl hread hm.markFault hm.hung hm.free

theorem steady_openAppend {handle : ℕ → Handle} (hm : ({ m with handle } : Machine).Sound c g)
    (hag : ∀ k, (m.handle k).Agrees (handle k)) (h : ℕ) (name : Name)
    (hcare : ∀ i, m.fs.IsFile c i name → m.fs.Trimmed c i ∧
      ∀ k, k ≠ h → (m.handle k).filemode ≠ .read → (m.handle k).entry ≠ i) :
    (m.step c (.open h name .append)).2.Steady c g := by
  have htable : (m.fs.table c).Sound c g := hm.table
  by_cases hex : ∃ i, m.fs.IsFile c i name
  · obtain ⟨i, hfile⟩ := hex
    obtain ⟨htrim, hothers⟩ := hcare i hfile
    obtain ⟨fh, buffer, fh', hopen, hre⟩ := open_append htable hfile htrim
    have hentry := hre.agrees.entry.trans hre.entry
    have hmode := hre.agrees.filemode.trans hre.filemode
    simp only [step, hopen]
    refine steady_set hag hre.agrees (hm.update (r := i) htable (.refl _ _ _ htable.links)
      (fun k hk hkm => ?_) (by simp [hmode]) (fun _ => ⟨hentry, hre.writer, fun _ => hre.tied⟩)
      hm.markFault hm.hung hm.free)
    have hkentry : (handle k).entry = (m.handle k).entry := (hag k).entry
    have hkmode : (handle k).filemode = (m.handle k).filemode := (hag k).filemode
    show (handle k).entry ≠ i
    rw [hkentry]
    exact hothers k hk (hkmode ▸ hkm)
  · obtain ⟨buffer, heq, ⟨h255, -⟩ | ⟨hfound, -⟩⟩ := Eefs.findEntry_cases c m.fs name
    · simp only [step, Eefs.eepromfsOpen, h255, heq, if_true]
      exact steady_set hag (.refl _) (hm.keep rfl rfl hm.markFault hm.hung hm.free)
    · exact absurd ⟨_, hfound⟩ hex

theorem steady_write {handle : ℕ → Handle} (hm : ({ m with handle } : Machine).Sound c g)
    (hag : ∀ k, (m.handle k).Agrees (handle k)) {h : ℕ} {data : List UInt8}
    (hfailed : m.failed h = false)
    (hcare : (m.handle h).Inside c data.length ∨ (m.handle h).AtEnd c m.fs) :
    ∃ g', (m.step c (.write h data)).2.Steady c g' := by
  have hmodes : (handle h).filemode = (m.handle h).filemode := (hag h).filemode
  by_cases hmode : (m.handle h).filemode = .write
  · have hmode' := hmodes.trans hmode
    rcases hcare with hin | hend
    · obtain ⟨g', w, hsound, -⟩ := hm.write_ok (h := h) hmode' hfailed data
      obtain ⟨hst, -, hfs, hag', -⟩ := (hag h).write (s := m.fs) hmode hin
      refine ⟨g', ?_⟩
      simp only [step] at hsound ⊢
      rw [hst, hfs]
      exact steady_set hag hag' hsound
    · -- the handle itself is in step with the directory
      have hread : (handle h).filemode ≠ .read := by simp [hmode']
      obtain ⟨hw, ht⟩ := (hag h).tied hend hm.table (hm.writer h hread) (hm.tied h hread hfailed)
      rw [show (({ m with handle } : Machine).handle h).size = (m.handle h).size from (hag h).size] at ht
      have hreset : ({ m with handle := Function.update handle h (m.handle h) } : Machine) =
          ({ m with handle } : Machine).set h (m.handle h) (m.failed h) m.fs := by
        simp [set]
      have hm' : ({ m with handle := Function.update handle h (m.handle h) } : Machine).Sound c g := by
        rw [hreset]
        refine hm.update (r := (m.handle h).entry) hm.table (.refl _ _ _ hm.table.links)
          (fun k hk hkm => ?_) (by simp [hmode]) (fun _ => ⟨rfl, hw, fun _ => ht⟩) hm.markFault hm.hung
          hm.free
        rw [← (hag h).entry]
        exact hm.apart k h hkm hread hk
      have hself : Function.update handle h (m.handle h) h = m.handle h := Function.update_self ..
      obtain ⟨g', w, hsound, -⟩ := hm'.write_ok (h := h)
        ((congrArg Handle.filemode hself).trans hmode) hfailed data
      refine ⟨g', ?_⟩
      simp only [step, hself] at hsound ⊢
      refine steady_set (fun k => ?_) (.refl _) hsound
      by_cases hk : k = h
      · subst hk
        rw [Function.update_self]
        exact .refl _
      · rw [Function.update_of_ne hk]
        exact hag k
  · have hsound := hm.write_invalid (h := h) (hmodes ▸ hmode) data
    refine ⟨g, ?_⟩
    simp only [step, Eefs.eepromfsWrite, if_pos hmode] at hsound ⊢
    simp only [if_pos (show (handle h).filemode ≠ .write from hmodes ▸ hmode)] at hsound
    exact steady_set hag (hag h) hsound

theorem steady_close {handle : ℕ → Handle} (hm : ({ m with handle } : Machine).Sound c g)
    (hag : ∀ k, (m.handle k).Agrees (handle k)) (h : ℕ) : (m.step c (.close h)).2.Steady c g := by
  have hmodes : (handle h).filemode = (m.handle h).filemode := (hag h).filemode
  by_cases hmode : (m.handle h).filemode = .read
  · have hsound := hm.close_read (h := h) (hmodes.trans hmode)
    simp only [step, Eefs.close_read hmode, Eefs.close_read (hmodes.trans hmode)] at hsound ⊢
    exact steady_set hag (.refl _) (hsound.set_read rfl)
  · obtain ⟨hsound, -⟩ := hm.close_write (h := h) (hmodes ▸ hmode)
    have hfs : (m.fs.eepromfsClose c (handle h)).2 = (m.fs.eepromfsClose c (m.handle h)).2 := by
      rw [Eefs.eepromfsClose, Eefs.eepromfsClose, hmodes, (hag h).entry, (hag h).size]
    simp only [step] at hsound ⊢
    rw [hfs] at hsound
    exact steady_set hag (.refl _) (hsound.set_read rfl)

theorem steady_step (hm : m.Steady c g) (a : Call) (ha : m.Careful c a) :
    ∃ g', (m.step c a).2.Steady c g' := by
  obtain ⟨handle, hm, hag⟩ := hm
  cases a with
  | format =>
    obtain ⟨hblank, hmark, -, hhung⟩ := Eefs.format_blank c m.fs
    refine ⟨g, handle, Sound.of_blank (m := { m with handle }) hblank (hmark.trans hm.markFault)
      (hhung.trans hm.hung) (fun h => (hag h).filemode.trans (ha h)) g, hag⟩
  | «open» h name mode =>
    cases mode with
    | read => exact ⟨g, steady_set hag (.refl _) (hm.openRead h name)⟩
    | write =>
      obtain ⟨g', hsound, -⟩ := hm.openWrite h name
      exact ⟨g', steady_set hag (.refl _) hsound⟩
    | append => exact ⟨g, steady_openAppend hm hag h name (ha rfl)⟩
  | write h data => exact steady_write hm hag ha.1 ha.2
  | read h length =>
    have hsound := hm.read h length
    by_cases hmode : (m.handle h).filemode = .read
    · have hself : handle h = m.handle h := (hag h).read hmode
      simp only [step, hself] at hsound ⊢
      exact ⟨g, steady_set hag (.refl _) hsound⟩
    · have hmode' : (handle h).filemode ≠ .read := (hag h).filemode ▸ hmode
      simp only [step, Eefs.eepromfsRead, if_pos hmode'] at hsound
      simp only [step, Eefs.eepromfsRead, if_pos hmode]
      exact ⟨g, steady_set hag (hag h) hsound⟩
  | close h => exact ⟨g, steady_close hm hag h⟩
  | rename oldname newname => exact ⟨g, handle, (hm.rename oldname newname).1, hag⟩
  | delete name => exact ⟨g, handle, hm.delete name, hag⟩

theorem steady_run (c : Config) (s : Eefs) {calls : List Call}
    (h : Meets (step c) (Careful c) (formatted c s) calls) :
    ∃ g, (run (step c) (formatted c s) calls).2.Steady c g := by
  have halways := always_of_step (I := fun m => ∃ g, m.Steady c g)
    (fun m a ⟨g, hm⟩ ha => steady_step hm a ha)
    ⟨⟨id, id⟩, (sound_formatted c s ⟨id, id⟩).steady⟩ h
  exact halways.last

/-- In every state that careful calls reach: an append of bytes for which there is room does what it
is to do exactly if they fit into the last sector of the file or its last entry lists one sector. -/
theorem appends_iff_run (c : Config) (s : Eefs) (calls : List Call)
    (hcalls : Meets (step c) (Careful c) (formatted c s) calls) (h i : ℕ) (name : Name)
    (xs : List UInt8) (chunks : List (List UInt8))
    (hfile : (run (step c) (formatted c s) calls).2.fs.IsFile c i name)
    (hxs : (run (step c) (formatted c s) calls).2.Delivers c name xs)
    (htrim : (run (step c) (formatted c s) calls).2.fs.Trimmed c i)
    (hroom : (run (step c) (formatted c s) calls).2.fs.Room c xs.length chunks.flatten.length) :
    (run (step c) (formatted c s) calls).2.Appends c h name xs chunks ↔
      Appendable c xs.length chunks.flatten.length := by
  obtain ⟨g, handle, hm, -⟩ := steady_run c s hcalls
  have htable : ((run (step c) (formatted c s) calls).2.fs.table c).Sound c g := hm.table
  exact ⟨appendable_of_appends htable hfile hxs htrim,
    appends_of_room htable h hfile hxs htrim hroom⟩

/-- In such a state a file has the content that is read. -/
theorem delivers_read_run (c : Config) (s : Eefs) {calls : List Call}
    (hcalls : Meets (step c) (Careful c) (formatted c s) calls) {i : ℕ} {name : Name}
    {bytes : List UInt8} (hfile : (run (step c) (formatted c s) calls).2.fs.IsFile c i name)
    (hread : (((run (step c) (formatted c s) calls).2.readBack c 0 name
      [((run (step c) (formatted c s) calls).2.fs.entry c i).size]).1.map Reply.bytes).flatten = bytes) :
    (run (step c) (formatted c s) calls).2.Delivers c name bytes := by
  obtain ⟨g, handle, hm, -⟩ := steady_run c s hcalls
  generalize (run (step c) (formatted c s) calls).2 = m at hfile hread hm ⊢
  have hs : (m.fs.table c).Sound c g := hm.table
  obtain ⟨bytes', hstored⟩ := exists_stored hs hfile
  have hd := delivers_of_stored hs hstored
  have hsize := hstored.size
  rw [Eefs.dir_table hfile.1.1] at hsize
  rw [hd.bytes, List.sum_singleton, hsize, List.take_length] at hread
  exact hread ▸ hd

/-- An erased EEPROM, and the variables as they are at the start. -/
def erasedChip : Eefs :=
  ⟨fun _ => 255, fun _ => 0, fun _ => 0, 0, fun _ => 0, false, false, false⟩

/-- A file is written in one go. -/
def writeFile (bytes : List UInt8) : List Call :=
  [.open 0 (fun _ => 65) .write, .write 0 bytes, .close 0]

/-- The state after it. -/
def fileWritten (bytes : List UInt8) : Machine :=
  (run (step Config.avr) (formatted Config.avr erasedChip) (writeFile bytes)).2

set_option maxRecDepth 20000 in
theorem careful_three : Meets (step Config.avr) (Careful Config.avr)
    (formatted Config.avr erasedChip) (writeFile [1, 2, 3]) :=
  ⟨by simp [Careful], ⟨rfl, .inr (by decide +kernel)⟩, trivial, trivial⟩

set_option maxRecDepth 20000 in
theorem delivers_three : (fileWritten [1, 2, 3]).Delivers Config.avr (fun _ => 65) [1, 2, 3] :=
  delivers_read_run Config.avr erasedChip careful_three (i := 0) (by decide +kernel)
    (by decide +kernel)

set_option maxRecDepth 20000 in
/-- Three bytes, and a fourth one appended. -/
theorem appends_three :
    (fileWritten [1, 2, 3]).Appends Config.avr 0 (fun _ => 65) [1, 2, 3] [[4]] :=
  (appends_iff_run Config.avr erasedChip _ careful_three 0 0 _ _ _ (by decide +kernel) delivers_three
    (by decide +kernel) ⟨by decide +kernel, by decide +kernel⟩).mpr (by decide)

set_option maxRecDepth 20000 in
theorem careful_twoSectors : Meets (step Config.avr) (Careful Config.avr)
    (formatted Config.avr erasedChip) (writeFile (List.replicate 128 1)) :=
  ⟨by simp [Careful], ⟨rfl, .inr (by decide +kernel)⟩, trivial, trivial⟩

set_option maxRecDepth 20000 in
/-- A file that fills two sectors, and one byte appended: the number of the new sector replaces that
of the second one. -/
theorem not_appends :
    (fileWritten (List.replicate 128 1)).Delivers Config.avr (fun _ => 65) (List.replicate 128 1) ∧
      (fileWritten (List.replicate 128 1)).fs.Trimmed Config.avr 0 ∧
      (fileWritten (List.replicate 128 1)).fs.Room Config.avr 128 1 ∧
      ¬(fileWritten (List.replicate 128 1)).Appends Config.avr 0 (fun _ => 65)
        (List.replicate 128 1) [[2]] := by
  refine ⟨delivers_read_run Config.avr erasedChip careful_twoSectors (i := 0) (by decide +kernel)
    (by decide +kernel), by decide +kernel, ⟨by decide +kernel, by decide +kernel⟩, fun h => ?_⟩
  have hread := h.content.bytes 0 [129]
  revert hread
  decide +kernel

end Machine

end NoDiskEmu.Eeprom
