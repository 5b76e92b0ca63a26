import NoDiskEmu.Eeprom.Runs

/-! What `eepromfs_read` delivers of a file in a well-formed directory. -/

namespace NoDiskEmu.Eeprom

open Library Library.Run

variable {c : Config} {s s' : Eefs} {g : Places} {fh fh' : Handle} {r : ℕ} {bytes : List UInt8}
  {off : ℕ}

/-- A handle that has read `off` bytes of the file with the first entry `r`. -/
structure Handle.Reader (c : Config) (t : Table) (g : Places) (r len : ℕ) (fh : Handle)
    (off : ℕ) : Prop where
  mode : fh.filemode = .read
  size : fh.size = len
  offset : fh.curOffset = off
  soffset : fh.curSoffset = off % c.sectorSize
  live : off < len → t.Live fh.curEntry
  own : off < len → g.own fh.curEntry = r
  pos : off < len → g.pos fh.curEntry = hops (off / c.sectorSize)
  sindex : off < len → fh.curSindex = index (off / c.sectorSize)
  sector : off < len → (t.dir fh.curEntry).sector fh.curSindex = fh.curSector

/-- The next sector of a file, in the entry at hand or in the next one. -/
theorem next_sector {t : Table} (hs : t.Sound c g) {i k x : ℕ} (hi : t.Live i) (hown : g.own i = r)
    (hr : t.Live r) (hpos : g.pos i = hops k) (hnext : t.SectorAt g r (k + 1) x) :
    if index k + 1 < (t.dir i).maxSectors then
      hops (k + 1) = hops k ∧ index (k + 1) = index k + 1 ∧ t.Listed i (index k + 1) x
    else
      hops (k + 1) = hops k + 1 ∧ index (k + 1) = 0 ∧ (t.dir i).nextentry ≠ 255 ∧
        t.Listed (t.dir i).nextentry 0 x ∧ g.own (t.dir i).nextentry = r ∧
        g.pos (t.dir i).nextentry = hops k + 1 := by
  have hmax := hs.links.maxSectors_eq hi
  rw [hpos] at hmax
  obtain ⟨hk, hidx⟩ := base_hops k
  obtain ⟨e, he, heown, hepos⟩ := hnext
  split
  · next hlt =>
    obtain ⟨hh, hidx'⟩ := hops_base (p := hops k) (j := index k + 1) (by omega)
    rw [show base (hops k) + (index k + 1) = k + 1 by omega] at hh hidx'
    refine ⟨hh, hidx', ?_⟩
    rw [hidx'] at he
    obtain rfl : e = i := hs.links.inj e i he.live hi (heown.trans hown.symm)
      (hepos.trans (hh.trans hpos.symm))
    exact he
  · next hge =>
    have hsucc : k + 1 = base (hops k + 1) + 0 := by
      rw [base_succ]
      omega
    obtain ⟨hh, hidx'⟩ := hops_base (p := hops k + 1) (j := 0) (by split <;> omega)
    rw [← hsucc] at hh hidx'
    rw [hh] at hepos
    rw [hidx'] at he
    -- the entry that lists the sector has a predecessor, which is the entry at hand
    obtain ⟨q, hq, hqnext⟩ := hs.links.prev e he.live (by omega) (heown.symm ▸ hr)
    have hne : (t.dir q).nextentry ≠ 255 := by
      have hb := hs.links.bound e he.live
      have hent := c.entries_lt
      omega
    obtain ⟨-, hqown, hqpos⟩ := hs.links.next q hq hne
    rw [hqnext] at hqown hqpos
    obtain rfl : q = i := hs.links.inj q i hq hi (hqown.symm.trans (heown.trans hown.symm)) (by omega)
    exact ⟨hh, hidx', hne, hqnext.symm ▸ he, hqnext.symm ▸ heown, hqnext.symm ▸ hepos⟩

theorem index_lt (k : ℕ) : index k < 30 := by
  have hidx := (base_hops k).2
  split at hidx <;> omega

/-- The part of a read that moves to the next sector. -/
theorem advance_reader (hs : (s.table c).Sound c g) (hr : (s.table c).Live r) {k x : ℕ}
    (hi : (s.table c).Live fh.curEntry) (hown : g.own fh.curEntry = r)
    (hpos : g.pos fh.curEntry = hops k) (hsindex : fh.curSindex = index k)
    (hnext : (s.table c).SectorAt g r (k + 1) x) :
    let a := s.advance c fh
    a.2.mem = s.mem ∧ a.2.table c = s.table c ∧ a.2.readFault = s.readFault ∧
      a.1.size = fh.size ∧ a.1.curOffset = fh.curOffset ∧ a.1.curSoffset = fh.curSoffset ∧
      a.1.filemode = fh.filemode ∧ (s.table c).Live a.1.curEntry ∧ g.own a.1.curEntry = r ∧
      g.pos a.1.curEntry = hops (k + 1) ∧ a.1.curSindex = index (k + 1) ∧
      ((s.table c).dir a.1.curEntry).sector a.1.curSindex = a.1.curSector := by
  have hlt := hs.links.bound _ hi
  have hidx := index_lt k
  have hcases := next_sector hs hi hown hr hpos hnext
  have hmod : (fh.curSindex + 1) % 256 = index k + 1 := by omega
  have hdir := Eefs.dir_table (s := s) hlt
  simp only [Eefs.advance, Eefs.buffer_readEntry, hmod, ← hdir]
  by_cases hle : index k + 1 < ((s.table c).dir fh.curEntry).maxSectors
  · rw [if_pos hle] at hcases
    obtain ⟨hh, hidx', hx⟩ := hcases
    have hne : ((s.table c).dir fh.curEntry).sector (index k + 1) ≠ 255 := hx.eq.symm ▸ hx.ne
    simp only [if_neg (Nat.not_le.mpr hle), Eefs.buffer_readEntry, ← hdir]
    refine ⟨rfl, rfl, ?_, trivial, trivial, trivial, trivial, hi, hown, hpos.trans hh.symm,
      hidx'.symm, trivial⟩
    simp only [Eefs.noteRead, beq_eq_false_iff_ne.mpr hne, Bool.or_false]
    rfl
  · rw [if_neg hle] at hcases
    obtain ⟨hh, hidx', hne, hx, hxown, hxpos⟩ := hcases
    have hdirn := Eefs.dir_table (s := s) (hs.links.bound _ hx.live)
    have hne' : ((s.table c).dir ((s.table c).dir fh.curEntry).nextentry).sector 0 ≠ 255 :=
      hx.eq.symm ▸ hx.ne
    have hbuffer : (Eefs.readEntry c ((s.readEntry c fh.curEntry).noteRead
        (((s.table c).dir fh.curEntry).nextentry == 255))
        ((s.table c).dir fh.curEntry).nextentry).buffer =
        (s.table c).dir ((s.table c).dir fh.curEntry).nextentry := hdirn.symm
    simp only [if_pos (Nat.not_lt.mp hle), hbuffer]
    refine ⟨rfl, rfl, ?_, trivial, trivial, trivial, trivial, hx.live, hxown, hxpos.trans hh.symm,
      hidx'.symm, trivial⟩
    simp only [Eefs.noteRead, beq_eq_false_iff_ne.mpr hne', Bool.or_false]
    show (s.readFault || ((s.table c).dir fh.curEntry).nextentry == 255) = s.readFault
    rw [beq_eq_false_iff_ne.mpr hne, Bool.or_false]

theorem Eefs.Content.congr (h : s.Content c g r bytes) (htable : s'.table c = s.table c)
    (hmem : s'.mem = s.mem) : s'.Content c g r bytes := by
  intro k hk
  obtain ⟨x, hx, hbyte⟩ := h k hk
  refine ⟨x, htable ▸ hx, ?_⟩
  rw [Eefs.data, hmem]
  exact hbyte

/-- What a reader gets out of the sector at hand. -/
theorem Handle.Reader.readChunk (hread : fh.Reader c (s.table c) g r bytes.length off)
    (hs : (s.table c).Sound c g) (hcontent : s.Content c g r bytes) {length : ℕ}
    (hle : off + length ≤ bytes.length) (hpos : 0 < length) :
    s.readChunk c fh length =
      (bytes.drop off).take (min length (c.sectorSize - off % c.sectorSize)) := by
  have hlt : off < bytes.length := by omega
  have hsmall := c.sectorSize_lt
  have hoff := Nat.mod_lt off c.sectorSize_pos
  have hat : (s.table c).SectorAt g r (off / c.sectorSize) fh.curSector := by
    obtain ⟨x, hx, -⟩ := hcontent off hlt
    obtain ⟨e, he, heown, hepos⟩ := hx
    obtain rfl : e = fh.curEntry := hs.links.inj e _ he.live (hread.live hlt)
      (heown.trans (hread.own hlt).symm) (hepos.trans (hread.pos hlt).symm)
    have hsec : fh.curSector = x := by rw [← hread.sector hlt, hread.sindex hlt, he.eq]
    exact ⟨_, hsec ▸ he, heown, hepos⟩
  refine List.ext_getElem ?_ fun k hk hk' => ?_
  · rw [Eefs.readChunk, List.length_map, List.length_range, List.length_take, List.length_drop,
      hread.soffset]
    omega
  · rw [Eefs.readChunk, List.length_map, List.length_range, hread.soffset] at hk
    have hin : k < c.sectorSize - off % c.sectorSize ∧ k < length := by omega
    obtain ⟨hdiv, hmod⟩ := add_div_mod (a := off) (o := k) (m := c.sectorSize) (by omega)
    obtain ⟨x, hx, hbyte⟩ := hcontent (off + k) (by omega)
    rw [hdiv] at hx
    rw [hmod, hx.unique hs.links hat] at hbyte
    rw [List.getElem_take, List.getElem_drop, ← hbyte]
    simp only [Eefs.readChunk, List.getElem_map, List.getElem_range, hread.soffset, Nat.add_assoc]

/-- The cursor after the bytes of one round, before it moves to the next sector. -/
def Handle.after (c : Config) (fh : Handle) (n : ℕ) : Handle :=
  { fh with
    curOffset := (fh.curOffset + n) % 65536
    curSoffset := (fh.curSoffset + n) % c.sectorSize }

/-- One round of the loop of `eepromfs_read`. -/
theorem Handle.Reader.round (hread : fh.Reader c (s.table c) g r bytes.length off)
    (hs : (s.table c).Sound c g) (hr : (s.table c).Live r) (hcontent : s.Content c g r bytes)
    (hlen : bytes.length < 65536) {n : ℕ} (hle : off + n ≤ bytes.length)
    (hn : n ≤ c.sectorSize - off % c.sectorSize) (hpos : 0 < n) :
    let fh' := fh.after c n
    let a := if fh'.curOffset ≠ fh'.size ∧ fh'.curSoffset = 0 then s.advance c fh' else (fh', s)
    a.1.Reader c (s.table c) g r bytes.length (off + n) ∧ a.2.mem = s.mem ∧
      a.2.table c = s.table c ∧ a.2.readFault = s.readFault := by
  have hlt : off < bytes.length := by omega
  have hoffset : (fh.curOffset + n) % 65536 = off + n := by
    rw [hread.offset, Nat.mod_eq_of_lt (by omega)]
  have hsoffset : (fh.curSoffset + n) % c.sectorSize = (off + n) % c.sectorSize := by
    rw [hread.soffset, Nat.mod_add_mod]
  have hmod := Nat.mod_lt off c.sectorSize_pos
  intro fh' a
  have hcurOffset : fh'.curOffset = off + n := hoffset
  have hcurSoffset : fh'.curSoffset = (off + n) % c.sectorSize := hsoffset
  have hsize : fh'.size = bytes.length := hread.size
  by_cases hmove : fh'.curOffset ≠ fh'.size ∧ fh'.curSoffset = 0
  · have ha : a = s.advance c fh' := if_pos hmove
    rw [hcurOffset, hcurSoffset, hsize] at hmove
    have hdiv : (off + n) / c.sectorSize = off / c.sectorSize + 1 := by
      by_cases hfull : off % c.sectorSize + n < c.sectorSize
      · have := (add_div_mod hfull).2
        omega
      · have hsplit := Nat.div_add_mod off c.sectorSize
        have heq : off + n = c.sectorSize * (off / c.sectorSize + 1) := by
          rw [Nat.mul_add, Nat.mul_one]
          omega
        rw [heq, Nat.mul_div_cancel_left _ c.sectorSize_pos]
    obtain ⟨x, hx, -⟩ := hcontent (off + n) (by omega)
    rw [hdiv] at hx
    obtain ⟨hmem, htable, hfault, h1, h2, h3, h4, hlive, hown, hpos', hsindex, hsector⟩ :=
      advance_reader hs hr (show (s.table c).Live fh'.curEntry from hread.live hlt) (hread.own hlt) (hread.pos hlt)
        (hread.sindex hlt) hx
    rw [ha]
    exact ⟨⟨h4.trans hread.mode, h1.trans hsize, h2.trans hcurOffset, h3.trans hcurSoffset,
      fun _ => hlive, fun _ => hown, fun _ => hdiv ▸ hpos', fun _ => hdiv ▸ hsindex,
      fun _ => hsector⟩, hmem, htable, hfault⟩
  · have ha : a = (fh', s) := if_neg hmove
    rw [hcurOffset, hcurSoffset, hsize] at hmove
    rw [ha]
    -- if there is more to read, the sector at hand still holds it
    have hdiv : off + n < bytes.length → (off + n) / c.sectorSize = off / c.sectorSize := by
      intro hmore
      by_cases hfull : off % c.sectorSize + n < c.sectorSize
      · exact (add_div_mod hfull).1
      · have hsplit := Nat.div_add_mod off c.sectorSize
        have heq : off + n = c.sectorSize * (off / c.sectorSize + 1) := by
          rw [Nat.mul_add, Nat.mul_one]
          omega
        exact absurd ⟨by omega, by rw [heq, Nat.mul_mod_right]⟩ hmove
    refine ⟨⟨hread.mode, hsize, hcurOffset, hcurSoffset, fun _ => hread.live hlt,
      fun _ => hread.own hlt, fun hmore => ?_, fun hmore => ?_, fun _ => hread.sector hlt⟩, rfl, rfl,
      rfl⟩
    · rw [hdiv hmore]
      exact hread.pos hlt
    · rw [hdiv hmore]
      exact hread.sindex hlt

/-- The loop of `eepromfs_read` delivers the bytes that are asked for and moves past them. -/
theorem Handle.Reader.readLoop (hs : (s.table c).Sound c g) (hr : (s.table c).Live r)
    (hcontent : s.Content c g r bytes) (hlen : bytes.length < 65536) {fuel length : ℕ}
    (hread : fh.Reader c (s.table c) g r bytes.length off) (hle : off + length ≤ bytes.length)
    (hfuel : length ≤ fuel) :
    let a := s.readLoop c fuel fh length
    a.1 = (bytes.drop off).take length ∧
      a.2.1.Reader c (s.table c) g r bytes.length (off + length) ∧ a.2.2.mem = s.mem ∧
      a.2.2.table c = s.table c ∧ a.2.2.readFault = s.readFault := by
  induction fuel generalizing s fh off length with
  | zero =>
    obtain rfl : length = 0 := by omega
    exact ⟨rfl, hread, rfl, rfl, rfl⟩
  | succ fuel ih =>
    rw [Eefs.readLoop]
    split
    · next hzero =>
      subst hzero
      exact ⟨rfl, hread, rfl, rfl, rfl⟩
    · next hpos =>
      have hmod := Nat.mod_lt off c.sectorSize_pos
      have hchunk := hread.readChunk hs hcontent hle (by omega)
      set n := min length (c.sectorSize - off % c.sectorSize) with hn
      have hbytes : (s.readChunk c fh length).length = n := by
        rw [hchunk, List.length_take, List.length_drop]
        omega
      dsimp only
      rw [hbytes]
      have hround := hread.round hs hr hcontent hlen (n := n) (by omega) (by omega) (by omega)
      obtain ⟨hread', hmem, htable, hfault⟩ := hround
      have hrest := ih (s := (if (fh.after c n).curOffset ≠ (fh.after c n).size ∧
          (fh.after c n).curSoffset = 0 then s.advance c (fh.after c n) else (fh.after c n, s)).2)
        (htable ▸ hs) (htable ▸ hr) (hcontent.congr htable hmem) (htable.symm ▸ hread')
        (show off + n + (length - n) ≤ bytes.length by omega) (by omega)
      obtain ⟨hb, hread'', hmem', htable', hfault'⟩ := hrest
      refine ⟨?_, ?_, hmem'.trans hmem, htable'.trans htable, hfault'.trans hfault⟩
      · refine (congrArg (s.readChunk c fh length ++ ·) hb).trans ?_
        rw [hchunk, ← List.drop_drop, ← List.take_add, show n + (length - n) = length by omega]
      · rw [htable, show off + n + (length - n) = off + length by omega] at hread''
        exact hread''

/-- Entry `r` is the first one of the file `name`, whose content is `bytes`. -/
structure Eefs.Stored (c : Config) (s : Eefs) (g : Places) (r : ℕ) (name : Name)
    (bytes : List UInt8) : Prop where
  file : s.IsFile c r name
  size : ((s.table c).dir r).size = bytes.length
  content : s.Content c g r bytes

/-- Every file of a well-formed directory has a content. -/
theorem exists_stored (hs : (s.table c).Sound c g) {name : Name} (hfile : s.IsFile c r name) :
    ∃ bytes, s.Stored c g r name bytes := by
  obtain ⟨hlive, hlist, -⟩ := Eefs.isFile_table.mp hfile
  have hholds := hs.files.sizes r hlive hlist
  have hsector : ∀ k < ((s.table c).dir r).size, k / c.sectorSize < blocks c ((s.table c).dir r).size := by
    intro k hk
    have hpos := c.sectorSize_pos
    refine (Nat.div_lt_iff_lt_mul hpos).mpr ?_
    have hdiv := Nat.div_add_mod (((s.table c).dir r).size + c.sectorSize - 1) c.sectorSize
    have hmod := Nat.mod_lt (((s.table c).dir r).size + c.sectorSize - 1) hpos
    rw [blocks, Nat.mul_comm]
    omega
  refine ⟨List.ofFn fun k : Fin ((s.table c).dir r).size =>
    s.data c (c.sectorSize * (hholds _ (hsector k k.2)).choose + k % c.sectorSize), hfile, by simp,
    fun k hk => ?_⟩
  rw [List.length_ofFn] at hk
  refine ⟨(hholds _ (hsector k hk)).choose, (hholds _ (hsector k hk)).choose_spec, ?_⟩
  rw [List.getElem_ofFn]

namespace Machine

variable {m : Machine}

/-- A file opened for reading through handle `h` and read with the chunk lengths `ns`. -/
def readBack (c : Config) (m : Machine) (h : ℕ) (name : Name) (ns : List ℕ) : List Reply × Machine :=
  run (step c) m (.open h name .read :: ns.map (.read h))

/-- However it is read, the file `name` gives `bytes`, and no assertion fails. -/
structure Delivers (c : Config) (m : Machine) (name : Name) (bytes : List UInt8) : Prop where
  size : ∃ i, m.fs.IsFile c i name ∧ (m.fs.entry c i).size = bytes.length
  ok : ∀ h ns, ∀ r ∈ (m.readBack c h name ns).1, r.status = .ok
  bytes : ∀ h ns, ((m.readBack c h name ns).1.map Reply.bytes).flatten = bytes.take ns.sum
  fault : ∀ h ns, (m.readBack c h name ns).2.fs.readFault = m.fs.readFault

/-- Reads through a handle that has read `off` bytes. -/
theorem read_run (hs : (m.fs.table c).Sound c g) (hr : (m.fs.table c).Live r)
    (hcontent : m.fs.Content c g r bytes) (hlen : bytes.length < 65536) {h : ℕ} (ns : List ℕ)
    (hread : (m.handle h).Reader c (m.fs.table c) g r bytes.length off) (hoff : off ≤ bytes.length) :
    let a := run (step c) m (ns.map (.read h))
    (∀ r ∈ a.1, r.status = .ok) ∧ (a.1.map Reply.bytes).flatten = (bytes.drop off).take ns.sum ∧
      a.2.fs.readFault = m.fs.readFault := by
  induction ns generalizing m off with
  | nil => exact ⟨by simp [run], by simp [run], rfl⟩
  | cons n ns ih =>
    obtain ⟨hb, hread', hmem, htable, hfault⟩ := hread.readLoop hs hr hcontent hlen
      (show off + min n (bytes.length - off) ≤ bytes.length by omega) le_rfl
    have hstep : m.step c (.read h n) = (⟨.ok, 0, (bytes.drop off).take n⟩, (m.step c (.read h n)).2) := by
      simp only [step, Eefs.eepromfsRead, if_neg (not_not.mpr hread.mode), hread.size, hread.offset, hb]
      congr 2
      by_cases hle : n ≤ bytes.length - off
      · rw [Nat.min_eq_left hle]
      · rw [Nat.min_eq_right (by omega), List.take_of_length_le (by simp),
          List.take_of_length_le (by rw [List.length_drop]; omega)]
    have hfs : (m.step c (.read h n)).2.fs = (m.fs.readLoop c (min n (bytes.length - off)) (m.handle h)
        (min n (bytes.length - off))).2.2 := by
      simp only [step, Eefs.eepromfsRead, if_neg (not_not.mpr hread.mode), hread.size, hread.offset]
      rfl
    have hhandle : (m.step c (.read h n)).2.handle h = (m.fs.readLoop c (min n (bytes.length - off))
        (m.handle h) (min n (bytes.length - off))).2.1 := by
      simp only [step, Eefs.eepromfsRead, if_neg (not_not.mpr hread.mode), hread.size, hread.offset]
      exact Function.update_self ..
    rw [← hfs] at hmem htable hfault
    rw [← hhandle, ← htable] at hread'
    obtain ⟨hok, hbytes, hfault'⟩ := ih (m := (m.step c (.read h n)).2) (htable ▸ hs) (htable ▸ hr)
      (hcontent.congr htable hmem) hread' (by omega)
    rw [List.map_cons, run]
    refine ⟨?_, ?_, hfault'.trans hfault⟩
    · rintro r (_ | ⟨_, hmem⟩)
      · rw [hstep]
      · exact hok r hmem
    · rw [List.map_cons, List.flatten_cons, hbytes, hstep, List.sum_cons, List.take_add, List.drop_drop]
      congr 1
      by_cases hle : n ≤ bytes.length - off
      · rw [Nat.min_eq_left hle]
      · rw [Nat.min_eq_right (by omega), List.drop_eq_nil_of_le (by omega),
          List.drop_eq_nil_of_le (by omega)]

theorem delivers_of_stored (hs : (m.fs.table c).Sound c g) {name : Name}
    (h : m.fs.Stored c g r name bytes) : m.Delivers c name bytes := by
  obtain ⟨hlive, hlist, hname⟩ := Eefs.isFile_table.mp h.file
  have hlt := Eefs.lt_of_live hlive
  have hent := c.entries_lt
  obtain ⟨hown, hpos⟩ := hs.links.root r hlive hlist
  have hlen : bytes.length < 65536 := by
    rw [← h.size, Entry.size]
    have hlow := ((m.fs.table c).dir r 28).toNat_lt
    have hhigh := ((m.fs.table c).dir r 29).toNat_lt
    omega
  have hopen : ∀ k, ∃ buffer fh, m.step c (.open k name .read) =
      (Reply.of .ok, m.set k fh false (m.fs.setBuffer buffer)) ∧
      fh.Reader c (m.fs.table c) g r bytes.length 0 := by
    intro k
    obtain ⟨buffer, heq, ⟨-, hnone⟩ | ⟨hfound, hbuffer⟩⟩ := Eefs.findEntry_cases c m.fs name
    · exact absurd h.file (hnone r)
    · obtain ⟨hlive', hlist', hname'⟩ := Eefs.isFile_table.mp hfound
      have hr : (m.fs.findEntry c name).1 = r :=
        hs.files.names _ _ hlive' hlive hlist' hlist (hname'.trans hname.symm)
      rw [hr, ← Eefs.dir_table hlt] at hbuffer
      refine ⟨buffer, { Handle.zero with
        size := bytes.length
        entry := r
        curSector := ((m.fs.table c).dir r).sector 0
        curEntry := r }, ?_, ⟨rfl, rfl, rfl, (Nat.zero_mod _).symm, fun _ => hlive, fun _ => hown,
          fun _ => ?_, fun _ => ?_, fun _ => rfl⟩⟩
      · simp only [step, Eefs.eepromfsOpen, heq, hr, if_neg (show ¬r = 255 by omega), Eefs.openRead]
        rw [show (m.fs.setBuffer buffer).buffer = buffer from rfl, hbuffer, h.size]
      · rw [Nat.zero_div]
        exact hpos
      · rw [Nat.zero_div]
        rfl
  have hreads : ∀ k ns, (∀ r ∈ (m.readBack c k name ns).1, r.status = .ok) ∧
      ((m.readBack c k name ns).1.map Reply.bytes).flatten = bytes.take ns.sum ∧
      (m.readBack c k name ns).2.fs.readFault = m.fs.readFault := by
    intro k ns
    obtain ⟨buffer, fh, hstep, hread⟩ := hopen k
    rw [readBack, run, hstep]
    have hself : (m.set k fh false (m.fs.setBuffer buffer)).handle k = fh := Function.update_self ..
    obtain ⟨hok, hbytes, hfault⟩ := read_run (m := m.set k fh false (m.fs.setBuffer buffer)) hs hlive
      (h.content.congr rfl rfl) hlen ns (hself.symm ▸ hread) (Nat.zero_le _)
    refine ⟨?_, hbytes, hfault⟩
    rintro r (_ | ⟨_, hmem⟩)
    · rfl
    · exact hok r hmem
  refine ⟨⟨r, h.file, ?_⟩, fun k ns => (hreads k ns).1, fun k ns => (hreads k ns).2.1,
    fun k ns => (hreads k ns).2.2⟩
  rw [← Eefs.dir_table hlt, h.size]

end Machine

end NoDiskEmu.Eeprom
