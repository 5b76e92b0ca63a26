import NoDiskEmu.Ff.Files

/-! `f_sync`: the directory entry of a file, and what is on the disk when it has returned. -/

namespace NoDiskEmu.Ff

open Library Library.Chain Library.WriteBack Fat

/-- `ST_WORD`. -/
def stWord (b : Sector) (i val : ℕ) : Sector :=
  Function.update (Function.update b i (UInt8.ofNat val)) (i + 1) (UInt8.ofNat (val / 256))

/-- `ST_DWORD`. -/
def stDword (b : Sector) (i val : ℕ) : Sector := stWord (stWord b i val) (i + 2) (val / 65536)

section Bytes

variable {b : Sector} {i j val : ℕ}

theorem stWord_of_ne (hj : j < i ∨ i + 2 ≤ j) : stWord b i val j = b j := by
  rw [stWord, Function.update_of_ne (by omega), Function.update_of_ne (by omega)]

theorem stDword_of_ne (hj : j < i ∨ i + 4 ≤ j) : stDword b i val j = b j := by
  rw [stDword, stWord_of_ne (by omega), stWord_of_ne (by omega)]

theorem ldWord_congr {b' : Sector} (h : ∀ j, i ≤ j → j < i + 2 → b' j = b j) : ldWord b' i = ldWord b i := by
  rw [ldWord, ldWord, h i (by omega) (by omega), h (i + 1) (by omega) (by omega)]

theorem ldDword_congr {b' : Sector} (h : ∀ j, i ≤ j → j < i + 4 → b' j = b j) : ldDword b' i = ldDword b i := by
  rw [ldDword, ldDword, ldWord_congr fun j hj hlt => h j hj (by omega),
    ldWord_congr fun j hj hlt => h j (by omega) (by omega)]

theorem ldWord_stWord : ldWord (stWord b i val) i = val % 65536 := by
  rw [ldWord, stWord, Function.update_of_ne (by omega), Function.update_self, Function.update_self, toNat_ofNat,
    toNat_ofNat]
  omega

theorem ldDword_stDword : ldDword (stDword b i val) i = val % 2 ^ 32 := by
  rw [ldDword, stDword, ldWord_stWord, ldWord_congr fun j hj hlt => stWord_of_ne (by omega), ldWord_stWord]
  omega

end Bytes

/-- The FSInfo sector. -/
def fsInfo (freeClust lastClust : ℕ) : Sector :=
  stDword (stDword (stDword (stDword (stWord (fun _ => 0) 510 0xaa55) 0 0x41615252) 484 0x61417272) 488 freeClust) 492
    lastClust

namespace Disk

variable (vol : ℕ → Volume)

/-- `sync`; an error of the FSInfo sector is not looked at. -/
def sync (s : Disk) (fs : ℕ) : FResult × Disk :=
  let m := ({ s with buf := { s.buf with dirty := true } } : Disk).moveWindow vol fs 0
  if m.1 = false then (.rwError, m.2)
  else
    let s := m.2
    let s :=
      if (vol fs).fsType = .fat32 ∧ s.fsiFlag fs then
        let data := fsInfo (s.freeClust fs) (s.lastClust fs)
        let s : Disk := { s with buf := { s.buf with tag := (s.buf.tag.1, 0), block := data } }
        let s := (s.diskWrite (fs, (vol fs).fsiSector) data).2
        { s with fsiFlag := Function.update s.fsiFlag fs false }
      else s
    match s.io 0 with
    | .ok => (.ok, s.nextIo)
    | .failed _ => (.rwError, s.nextIo)

variable {vol} {s s' : Disk} {fs : ℕ}

theorem moveWindow_cases (hs : s.Sound vol) (fs sector : ℕ) :
    let r := s.moveWindow vol fs sector
    (r.1 = false ∧ ¬s.Healthy vol) ∨
      (r.1 = true ∧ Same vol s r.2 ∧ r.2.Sound vol ∧ (sector ≠ 0 → r.2.buf.tag = (fs, sector)) ∧
        (s.Healthy vol → r.2.Healthy vol)) := by
  have hcalm := fun h : s.Healthy vol => moveWindow_calm hs h.calm fs sector
  cases hok : (s.moveWindow vol fs sector).1 with
  | false => exact .inl ⟨hok, fun h => Bool.noConfusion (hok.symm.trans (hcalm h).1)⟩
  | true =>
    obtain ⟨hsame, hsound, htag, -⟩ := moveWindow_spec hs hok
    exact .inr ⟨hok, hsame, hsound, htag, fun h => ⟨(hcalm h).2.1, (hcalm h).2.2 h.mirrored⟩⟩

/-- The FSInfo sector is written past the buffer, which holds no sector then. -/
theorem fsInfo_same (hs : s.Sound vol) (hclean : s.buf.dirty = false) (v : ℕ) (data : Sector) (fs : ℕ) :
    let s' := (({ s with buf := { s.buf with tag := (v, 0), block := data } } : Disk).diskWrite
      (fs, (vol fs).fsiSector) data).2
    Same vol s s' ∧ s'.Sound vol ∧ s'.buf.dirty = false := by
  have hbase := (vol v).fatbase_pos
  have hfsi := (vol fs).fsiSector_lt
  have hzero : ¬Primary vol (v, 0) := fun h => absurd h.1 (by show ¬(vol v).fatbase ≤ 0; omega)
  have hsound : ∀ c : Cache (ℕ × ℕ) Sector, c.tag = (v, 0) → c.dirty = false → c.Sound (Primary vol) :=
    fun c htag hdirty => ⟨fun h => absurd (htag ▸ h) hzero, fun h => Bool.noConfusion (hdirty.symm.trans h)⟩
  rw [diskWrite]
  cases s.io 0 with
  | failed left =>
    have hs' := hsound { s.buf with tag := (v, 0), block := data } rfl hclean
    exact ⟨⟨fun a ha => (hs'.view_clean hclean ha).trans (hs.view_clean hclean ha).symm, rfl, rfl, rfl⟩, hs', hclean⟩
  | ok =>
    have hs' := hsound (({ s.buf with tag := (v, 0), block := data } : Cache (ℕ × ℕ) Sector).direct
      (fs, (vol fs).fsiSector) data) rfl hclean
    refine ⟨⟨fun a ha => ?_, rfl, rfl, rfl⟩, hs', hclean⟩
    have hne : a ≠ (fs, (vol fs).fsiSector) := by
      rintro rfl
      exact absurd ha.1 (Nat.not_le_of_gt hfsi)
    exact (hs'.view_clean hclean ha).trans ((Function.update_of_ne hne ..).trans (hs.view_clean hclean ha).symm)

theorem fsInfo_healthy (hs : s.Healthy vol) (v : ℕ) (data : Sector) (fs : ℕ) :
    (({ s with buf := { s.buf with tag := (v, 0), block := data } } : Disk).diskWrite
      (fs, (vol fs).fsiSector) data).2.Healthy vol := by
  rw [diskWrite, hs.calm 0]
  refine ⟨fun n => hs.calm (n + 1), fun v sect k hbase hlt hk => ?_⟩
  have hfsi := (vol fs).fsiSector_lt
  have hne : ∀ n, (v, sect + n) ≠ (fs, (vol fs).fsiSector) := by
    intro n heq
    have hv : v = fs := congrArg Prod.fst heq
    have hsect : sect + n = (vol fs).fsiSector := congrArg Prod.snd heq
    subst hv
    omega
  exact (Function.update_of_ne (hne _) ..).trans ((hs.mirrored v sect k hbase hlt hk).trans
    (Function.update_of_ne (hne 0) ..).symm)

/-- After `sync` the disk holds what the buffer held. -/
theorem sync_spec (htag : Primary vol s.buf.tag) (fs : ℕ) :
    let r := s.sync vol fs
    (Failed r.1 ∧ ¬s.Healthy vol) ∨
      (r.1 = .ok ∧ (∃ fsiFlag, Same vol { s with fsiFlag } r.2) ∧ r.2.Sound vol ∧ r.2.buf.dirty = false ∧
        (s.Healthy vol → r.2.Healthy vol)) := by
  have hdirty : Sound vol { s with buf := { s.buf with dirty := true } } := ⟨nofun, fun _ => htag⟩
  have hcalm := fun h : s.Healthy vol => moveWindow_calm hdirty h.calm fs 0
  rw [sync]
  dsimp only
  cases hok : (({ s with buf := { s.buf with dirty := true } } : Disk).moveWindow vol fs 0).1 with
  | false =>
    rw [if_pos rfl]
    exact .inl ⟨.inr rfl, fun h => Bool.noConfusion (hok.symm.trans (hcalm h).1)⟩
  | true =>
    obtain ⟨hsame, hsound, -, hclean⟩ := moveWindow_spec hdirty hok
    rw [if_neg Bool.noConfusion]
    have hclean := hclean rfl
    have hhealthy := fun h : s.Healthy vol => (⟨(hcalm h).2.1, (hcalm h).2.2 h.mirrored⟩ : Healthy vol _)
    generalize (({ s with buf := { s.buf with dirty := true } } : Disk).moveWindow vol fs 0).2 = t at *
    have hinfo : let u := if (vol fs).fsType = .fat32 ∧ t.fsiFlag fs = true then
          let data := fsInfo (t.freeClust fs) (t.lastClust fs)
          let s : Disk := { t with buf := { t.buf with tag := (t.buf.tag.1, 0), block := data } }
          let s := (s.diskWrite (fs, (vol fs).fsiSector) data).2
          { s with fsiFlag := Function.update s.fsiFlag fs false }
        else t
        (∃ fsiFlag, Same vol { s with fsiFlag } u) ∧ u.Sound vol ∧ u.buf.dirty = false ∧
          (s.Healthy vol → u.Healthy vol) := by
      split
      · obtain ⟨hsame', hsound', hclean'⟩ := fsInfo_same hsound hclean t.buf.tag.1 (fsInfo (t.freeClust fs) (t.lastClust fs)) fs
        have hall := hsame.trans hsame'
        refine ⟨⟨_, by exact hall.view, by exact hall.lastClust, by exact hall.freeClust, rfl⟩, hsound', hclean', fun h => ?_⟩
        have hhealthy' := fsInfo_healthy (hhealthy h) t.buf.tag.1 (fsInfo (t.freeClust fs) (t.lastClust fs)) fs
        exact ⟨hhealthy'.calm, hhealthy'.mirrored⟩
      · exact ⟨⟨_, by exact hsame.view, by exact hsame.lastClust, by exact hsame.freeClust, rfl⟩, hsound, hclean, hhealthy⟩
    generalize (if (vol fs).fsType = .fat32 ∧ t.fsiFlag fs = true then _ else t) = u at hinfo ⊢
    obtain ⟨⟨flag, hview⟩, hsound', hclean', hhealthy'⟩ := hinfo
    cases hio : u.io 0 with
    | ok =>
      exact .inr ⟨rfl, ⟨flag, hview.view, hview.lastClust, hview.freeClust, hview.fsiFlag⟩, hsound', hclean',
        fun h => (hhealthy' h).nextIo⟩
    | failed left => exact .inl ⟨.inr rfl, fun h => sick_of_failed hio (hhealthy' h)⟩

end Disk

namespace Fil

/-- The directory entry of a file, with its size and first cluster and the time. -/
def entry (fp : Fil) (b : Sector) (tim : ℕ) : Sector :=
  let b := Function.update b (fp.dirPtr + 11) (b (fp.dirPtr + 11) ||| (0x20 : UInt8))
  let b := stDword b (fp.dirPtr + 28) fp.fsize
  let b := stWord b (fp.dirPtr + 26) fp.orgClust
  let b := stWord b (fp.dirPtr + 20) (fp.orgClust / 65536)
  stDword b (fp.dirPtr + 22) tim

variable (vol : ℕ → Volume)

/-- `f_sync`. -/
def fSync (fp : Fil) (s : Disk) (tim : ℕ) : FResult × Fil × Disk :=
  let v := s.validate fp.fs
  if v.1 ≠ .ok then (v.1, fp, v.2)
  else if fp.written = false then (.ok, fp, v.2)
  else
    let fs := fp.fs.getD 0
    let m := v.2.moveWindow vol fs 0
    if m.1 = false then (.rwError, fp, m.2)
    else
      let m := m.2.moveWindow vol fs fp.dirSect
      if m.1 = false then (.rwError, fp, m.2)
      else
        let y := ({ m.2 with buf := { m.2.buf with block := fp.entry m.2.buf.block tim } } : Disk).sync vol fs
        (y.1, { fp with written := false }, y.2)

/-- `f_close`. -/
def fClose (fp : Fil) (s : Disk) (tim : ℕ) : FResult × Fil × Disk :=
  let r := fp.fSync vol s tim
  (r.1, if r.1 = .ok then { r.2.1 with fs := none } else r.2.1, r.2.2)

/-- A file at its start, with the first cluster and the size of its entry. -/
def load (fp : Fil) (b : Sector) (dirPtr : ℕ) : Fil :=
  { fp with
    orgClust := ldWord b (dirPtr + 20) * 65536 + ldWord b (dirPtr + 26)
    fsize := ldDword b (dirPtr + 28)
    fptr := 0
    csect := 1 }

/-- The end of `f_open`, for an entry in the sector that the search for the name has left in the window. -/
def ofEntry (fp : Fil) (s : Disk) (fs dirPtr : ℕ) (read write : Bool) : Fil :=
  { fp.load s.buf.block dirPtr with
    dirSect := s.buf.tag.2
    dirPtr
    read
    write
    written := false
    error := false
    fs := some fs }

variable {vol} {fs : ℕ} {s : Disk} {fp : Fil} {tim : ℕ}

section Entry

variable {b b' : Sector} {j dirPtr : ℕ}

/-- The entry changes only its own bytes. -/
theorem entry_aside (hj : j < fp.dirPtr ∨ fp.dirPtr + 32 ≤ j) : fp.entry b tim j = b j := by
  rw [entry, stDword_of_ne (by omega), stWord_of_ne (by omega), stWord_of_ne (by omega), stDword_of_ne (by omega),
    Function.update_of_ne (by omega)]

theorem load_congr (h : ∀ j, dirPtr ≤ j → j < dirPtr + 32 → b' j = b j) : fp.load b' dirPtr = fp.load b dirPtr := by
  rw [load, ldWord_congr fun j hj hlt => h j (by omega) (by omega), ldWord_congr fun j hj hlt => h j (by omega) (by omega),
    ldDword_congr fun j hj hlt => h j (by omega) (by omega), load]

/-- A file is loaded as it was saved. -/
theorem load_entry (hsize : fp.fsize < 2 ^ 32) (hclust : fp.orgClust < 2 ^ 32) :
    fp.load (fp.entry b tim) fp.dirPtr = { fp with fptr := 0, csect := 1 } := by
  have hdword : ldDword (fp.entry b tim) (fp.dirPtr + 28) = fp.fsize := by
    rw [entry, ldDword_congr fun j hj hlt => stDword_of_ne (by omega),
      ldDword_congr fun j hj hlt => stWord_of_ne (by omega), ldDword_congr fun j hj hlt => stWord_of_ne (by omega),
      ldDword_stDword, Nat.mod_eq_of_lt hsize]
  have hlow : ldWord (fp.entry b tim) (fp.dirPtr + 26) = fp.orgClust % 65536 := by
    rw [entry, ldWord_congr fun j hj hlt => stDword_of_ne (by omega),
      ldWord_congr fun j hj hlt => stWord_of_ne (by omega), ldWord_stWord]
  have hhigh : ldWord (fp.entry b tim) (fp.dirPtr + 20) = fp.orgClust / 65536 := by
    rw [entry, ldWord_congr fun j hj hlt => stDword_of_ne (by omega), ldWord_stWord, Nat.mod_eq_of_lt (by omega)]
  rw [load, hdword, hlow, hhigh, Nat.mul_comm, Nat.div_add_mod]

end Entry

/-- What `f_sync` does for a file that was written: the entry is stored, and everything is on the disk. -/
structure Saved (vol : ℕ → Volume) (fs : ℕ) (fp : Fil) (tim : ℕ) (s s' : Disk) : Prop where
  sound : s'.Sound vol
  clean : s'.buf.dirty = false
  healthy : s.Healthy vol → s'.Healthy vol
  view : ∀ a, Disk.Primary vol a → s'.buf.view a =
    Function.update s.buf.view (fs, fp.dirSect) (fp.entry (s.buf.view (fs, fp.dirSect)) tim) a
  freeClust : s'.freeClust = s.freeClust

theorem fSync_spec (hs : s.Sound vol) (hfs : fp.fs = some fs)
    (hdir : (vol fs).fatbase + (vol fs).nFats * (vol fs).sectsFat ≤ fp.dirSect) :
    let r := fp.fSync vol s tim
    (Failed r.1 ∧ ¬s.Healthy vol) ∨
      (r.1 = .ok ∧ (fp.written = false ∧ r.2.1 = fp ∧ Disk.Relinked vol (s.link vol) s r.2.2 ∨
        fp.written = true ∧ r.2.1 = { fp with written := false } ∧ Saved vol fs fp tim s r.2.2)) := by
  have hprimary : Disk.Primary vol (fs, fp.dirSect) := Disk.primary_data hdir
  have hpos : fp.dirSect ≠ 0 := by
    have := (vol fs).fatbase_pos
    omega
  cases hio : s.io 0 with
  | failed left =>
    rw [fSync, validate_failed hfs hio]
    exact .inl ⟨.inl rfl, Disk.sick_of_failed hio⟩
  | ok =>
    have hnext := Disk.relinked_nextIo hs
    have hvalid : s.validate fp.fs = (.ok, s.nextIo) := by
      rw [hfs]
      simp only [Disk.validate, hio]
    rw [fSync, hvalid, if_neg (not_not.mpr rfl)]
    dsimp only
    rw [hfs, Option.getD_some]
    cases hwritten : fp.written with
    | false =>
      rw [if_pos rfl]
      exact .inr ⟨rfl, .inl ⟨rfl, rfl, hnext⟩⟩
    | true =>
      rw [if_neg Bool.noConfusion]
      obtain ⟨hno, hsick⟩ | ⟨hok, hsame, hsound, -, hhealthy⟩ := Disk.moveWindow_cases hnext.sound fs 0
      · rw [if_pos hno]
        exact .inl ⟨.inr rfl, fun h => hsick h.nextIo⟩
      rw [if_neg (by rw [hok]; exact Bool.noConfusion)]
      generalize (s.nextIo.moveWindow vol fs 0).2 = t at hsame hsound hhealthy ⊢
      obtain ⟨hno, hsick⟩ | ⟨hok, hsame', hsound', htag, hhealthy'⟩ := Disk.moveWindow_cases hsound fs fp.dirSect
      · rw [if_pos hno]
        exact .inl ⟨.inr rfl, fun h => hsick (hhealthy h.nextIo)⟩
      rw [if_neg (by rw [hok]; exact Bool.noConfusion)]
      have htag := htag hpos
      have hhealthy := fun h : s.Healthy vol => hhealthy' (hhealthy h.nextIo)
      generalize (t.moveWindow vol fs fp.dirSect).2 = u at hsame' hsound' htag hhealthy ⊢
      have hview : ∀ a, Disk.Primary vol a → u.buf.view a = s.buf.view a := (hsame.trans hsame').view
      have hblock : u.buf.block = s.buf.view (fs, fp.dirSect) := by
        rw [← hview _ hprimary, ← htag, Cache.view_tag]
      obtain ⟨hno, hsick⟩ | ⟨hok, ⟨flag, hsync⟩, hsound'', hclean, hhealthy''⟩ := Disk.sync_spec
        (s := { u with buf := { u.buf with block := fp.entry u.buf.block tim } }) (htag ▸ hprimary) fs
      · exact .inl ⟨hno, fun h => hsick ⟨(hhealthy h).calm, (hhealthy h).mirrored⟩⟩
      · refine .inr ⟨hok, .inr ⟨rfl, rfl, hsound'', hclean, fun h => hhealthy'' ⟨(hhealthy h).calm, (hhealthy h).mirrored⟩,
          fun a ha => ?_, hsync.freeClust.trans ((hsame.trans hsame').freeClust)⟩⟩
        refine (hsync.view a ha).trans ?_
        have hstore : (Cache.mk u.buf.medium u.buf.tag (fp.entry u.buf.block tim) u.buf.dirty).view =
            Function.update u.buf.view u.buf.tag (fp.entry u.buf.block tim) := Cache.view_store
        show (Cache.mk u.buf.medium u.buf.tag (fp.entry u.buf.block tim) u.buf.dirty).view a = _
        rw [hstore, htag, hblock]
        by_cases hself : a = (fs, fp.dirSect)
        · rw [hself, Function.update_self, Function.update_self]
        · rw [Function.update_of_ne hself, Function.update_of_ne hself, hview a ha]

theorem Saved.link {s' : Disk} (h : Saved vol fs fp tim s s')
    (hdir : (vol fs).fatbase + (vol fs).nFats * (vol fs).sectsFat ≤ fp.dirSect) : s'.link vol = s.link vol := by
  funext ⟨v, c⟩
  rw [Disk.link_congr (b := s.fatByte vol v) fun k hk => ?_, Disk.link]
  have hq := Nat.div_lt_of_lt_mul hk
  have hne : (v, (vol v).fatbase + k / 512) ≠ (fs, fp.dirSect) := by
    intro heq
    have hv : v = fs := congrArg Prod.fst heq
    have hsect : (vol v).fatbase + k / 512 = fp.dirSect := congrArg Prod.snd heq
    subst hv
    have := Disk.fats_le vol v
    omega
  rw [Disk.fatByte, h.view _ (Disk.primary_fat hq), Function.update_of_ne hne, Disk.fatByte]

end Fil

end NoDiskEmu.Ff
