import NoDiskEmu.Dxx.Entries

/-! What the links of an image say, and what a read of them gives. -/

namespace NoDiskEmu.Dxx

open Library

namespace State

/-- The entry of a sector in the error-info block. -/
def errorByte (s : State) (part track sector : ℕ) : ℕ :=
  (s.image part (errorOffset (s.type part) + sectorLba (s.type part) track 0 + sector)).toNat

/-- `checked_read` gives the contents of the sector. -/
def Readable (s : State) (part : ℕ) (x : ℕ × ℕ) : Prop :=
  ValidTS (s.type part) (s.lastTrack part) x.1 x.2 ∧
    ((s.partition part).imagetype.errorInfo = true →
      ¬(2 ≤ s.errorByte part x.1 x.2 ∧ s.errorByte part x.1 x.2 ≤ 11) ∧
        s.errorByte part x.1 x.2 ≠ 15)

instance (s : State) (part : ℕ) (x : ℕ × ℕ) : Decidable (s.Readable part x) :=
  inferInstanceAs (Decidable (_ ∧ (_ → _ ∧ _)))

/-- The bytes 0 and 1 of a sector. -/
def linkBytes (s : State) (part : ℕ) (x : ℕ × ℕ) : ℕ × ℕ :=
  ((s.image part (s.offset part x.1 x.2)).toNat, (s.image part (s.offset part x.1 x.2 + 1)).toNat)

/-- The sector that a sector leads to: none if it cannot be read or is the last one. -/
def link (s : State) (part : ℕ) (x : ℕ × ℕ) : Option (ℕ × ℕ) :=
  if s.Readable part x ∧ (s.linkBytes part x).1 ≠ 0 then some (s.linkBytes part x) else none

/-- The error-info cache holds what the image says. -/
def Cached (s : State) (part : ℕ) : Prop :=
  (s.partition part).imagetype.errorInfo = true → s.errorcache.part = part →
    ∀ q < sectorsPerTrack (s.type part) s.errorcache.track,
      (s.errorcache.errors q).toNat = s.errorByte part s.errorcache.track q

end State

variable {s s₀ : State} {part : ℕ}

/-- Only formats that are not DNP have error info. -/
theorem Partition.Mounted.errorInfo {p : Partition} (h : p.Mounted) (he : p.imagetype.errorInfo = true) :
    p.imagetype.type ≠ .none ∧ p.imagetype.type ≠ .dnp := by
  obtain ⟨fsize, name, h⟩ := h
  rcases imageFormat_cases h with hmem | ⟨-, hit, -⟩
  · have hall : ∀ f ∈ fixedFormats, f.2.1.type ≠ .none ∧ f.2.1.type ≠ .dnp := by decide
    exact hall _ hmem
  · rw [hit] at he
    cases he

/-- The error info of a track is read. -/
theorem loadErrors_ok (hio : s.io 0 = .ok) (htype : s.type part ≠ .none ∧ s.type part ≠ .dnp) (track : ℕ) :
    ∃ errors, loadErrors s part track = (0, s.nextIo.setErrorcache ⟨part, track, errors⟩) ∧
      ∀ q < sectorsPerTrack (s.type part) track, (errors q).toNat = s.errorByte part track q := by
  have hnot : ¬((s.setErrorcache { s.errorcache with errors := fun _ => 1 }).type part = .none ∨
      (s.setErrorcache { s.errorcache with errors := fun _ => 1 }).type part = .dnp) :=
    not_or.mpr htype
  have hio' : (s.setErrorcache { s.errorcache with errors := fun _ => 1 }).io 0 = .ok := hio
  unfold loadErrors
  dsimp only
  rw [if_neg hnot, imageRead, hio']
  refine ⟨_, rfl, fun q hq => congrArg UInt8.toNat ?_⟩
  dsimp only
  rw [Memory.write_zero]
  · rfl
  · exact hq

/-- The error-info cache after the entries of a track were loaded. -/
theorem loadErrors_cached (hs : s.NoFault) (htype : s.type part ≠ .none ∧ s.type part ≠ .dnp)
    (track : ℕ) :
    ∃ errors, loadErrors s part track = (0, s.setErrorcache ⟨part, track, errors⟩) ∧
      ∀ q < sectorsPerTrack (s.type part) track, (errors q).toNat = s.errorByte part track q := by
  have hload := loadErrors_ok (congrFun hs 0) htype track
  rwa [State.nextIo_eq hs] at hload

/-- The verdict of the error info on a sector. -/
theorem readable_iff {x : ℕ × ℕ} (hvalid : ValidTS (s.type part) (s.lastTrack part) x.1 x.2)
    (hinfo : (s.partition part).imagetype.errorInfo = true) :
    s.Readable part x ↔ ¬(2 ≤ s.errorByte part x.1 x.2 ∧ s.errorByte part x.1 x.2 ≤ 11) ∧
      s.errorByte part x.1 x.2 ≠ 15 :=
  ⟨fun h => h.2 hinfo, fun h => ⟨hvalid, fun _ => h⟩⟩

/-- The look into the error info, once that of the track is in the cache. -/
theorem checkErrors_loaded {t : State} {x : ℕ × ℕ} (hvalid : ValidTS (s.type part) (s.lastTrack part) x.1 x.2)
    (hinfo : (s.partition part).imagetype.errorInfo = true)
    (hload : (if s.errorcache.part ≠ part ∨ s.errorcache.track ≠ x.1 then loadErrors s part x.1 else (0, s)) = (0, t))
    (hbyte : (t.errorcache.errors x.2).toNat = s.errorByte part x.1 x.2) :
    ∃ error, checkErrors s part x.1 x.2 = (if s.Readable part x then 0 else 2, { t with error }) ∧
      (s.Readable part x → error = t.error) ∧ (¬s.Readable part x → error.code ≠ ERROR_OK) := by
  have hread := readable_iff hvalid hinfo
  rw [checkErrors, if_pos hinfo, hload]
  dsimp only
  rw [if_neg (not_not.mpr rfl), hbyte]
  by_cases hbad : 2 ≤ s.errorByte part x.1 x.2 ∧ s.errorByte part x.1 x.2 ≤ 11
  · have hnot : ¬s.Readable part x := fun h => (hread.mp h).1 hbad
    rw [if_pos hbad, if_neg hnot]
    refine ⟨_, rfl, fun h => absurd h hnot, fun _ => ?_⟩
    dsimp only [ERROR_OK]
    omega
  · rw [if_neg hbad]
    by_cases hready : s.errorByte part x.1 x.2 = 15
    · have hnot : ¬s.Readable part x := fun h => (hread.mp h).2 hready
      rw [if_pos hready, if_neg hnot]
      exact ⟨_, rfl, fun h => absurd h hnot, fun _ => by decide⟩
    · have hok : s.Readable part x := hread.mpr ⟨hbad, hready⟩
      rw [if_neg hready, if_pos hok]
      exact ⟨_, rfl, fun _ => rfl, fun h => absurd hok h⟩

/-- The result of the look into the error info, and what it changes. -/
theorem checkErrors_cached (hs : s.NoFault) (hm : (s.partition part).Mounted)
    (hcached : s.Cached part) {x : ℕ × ℕ} (hvalid : ValidTS (s.type part) (s.lastTrack part) x.1 x.2) :
    ∃ errorcache error, checkErrors s part x.1 x.2 =
        (if s.Readable part x then 0 else 2, { s with errorcache, error }) ∧
      ({ s with errorcache, error } : State).Cached part ∧
      (s.Readable part x → error = s.error) ∧ (¬s.Readable part x → error.code ≠ ERROR_OK) := by
  by_cases hinfo : (s.partition part).imagetype.errorInfo = true
  · have hload : ∃ errors,
        (if s.errorcache.part ≠ part ∨ s.errorcache.track ≠ x.1 then loadErrors s part x.1 else (0, s)) =
          (0, s.setErrorcache ⟨part, x.1, errors⟩) ∧
        ∀ q < sectorsPerTrack (s.type part) x.1, (errors q).toNat = s.errorByte part x.1 q := by
      split
      · exact loadErrors_cached hs (hm.errorInfo hinfo) x.1
      · next hhit =>
        obtain ⟨hpart, htrack⟩ : s.errorcache.part = part ∧ s.errorcache.track = x.1 := by
          simpa using hhit
        refine ⟨s.errorcache.errors, ?_, fun q hq => ?_⟩
        · rw [← hpart, ← htrack]
          rfl
        · rw [← htrack] at hq ⊢
          exact hcached hinfo hpart q hq
    obtain ⟨errors, hload, herrors⟩ := hload
    obtain ⟨error, hcheck, hgood, hbad⟩ := checkErrors_loaded hvalid hinfo hload (herrors x.2 hvalid.2.2)
    exact ⟨⟨part, x.1, errors⟩, error, hcheck, fun _ _ q hq => herrors q hq, hgood, hbad⟩
  · have hread : s.Readable part x := ⟨hvalid, fun h => absurd h hinfo⟩
    refine ⟨s.errorcache, s.error, ?_, hcached, fun _ => rfl, fun h => absurd hread h⟩
    rw [checkErrors, if_neg hinfo, if_pos hread]

/-- `checked_read` gives the contents of a sector that is readable and an error for any other. -/
theorem checkedRead_cached (hs : s.NoFault) (hm : (s.partition part).Mounted)
    (hcached : s.Cached part) (x : ℕ × ℕ) (buf : ℕ → UInt8) (len : ℕ) {code : ℕ}
    (hcode : code ≠ ERROR_OK) :
    ∃ errorcache error, checkedRead s part x.1 x.2 buf len code =
        (if s.Readable part x then 0 else 2,
          if s.Readable part x then Memory.write buf 0 len fun i => s.image part (s.offset part x.1 x.2 + i)
            else buf,
          { s with errorcache, error }) ∧
      ({ s with errorcache, error } : State).Cached part ∧
      (s.Readable part x → error = s.error) ∧ (¬s.Readable part x → error.code ≠ ERROR_OK) := by
  by_cases hvalid : ValidTS (s.type part) (s.lastTrack part) x.1 x.2
  · obtain ⟨errorcache, error, hcheck, hcached', herror⟩ := checkErrors_cached hs hm hcached hvalid
    have hrange : ¬(x.1 < 1 ∨ x.1 > s.lastTrack part ∨ x.2 ≥ sectorsPerTrack (s.type part) x.1) := by
      obtain ⟨h1, h2, h3⟩ := hvalid
      omega
    have hs' : ({ s with errorcache, error } : State).NoFault := hs
    refine ⟨errorcache, error, ?_, hcached', herror⟩
    rw [checkedRead, if_neg hrange, hcheck]
    dsimp only
    split
    · rw [if_neg (by decide), imageRead_ok hs']
      rfl
    · rw [if_pos (by decide)]
  · have hrange : x.1 < 1 ∨ x.1 > s.lastTrack part ∨ x.2 ≥ sectorsPerTrack (s.type part) x.1 := by
      by_contra hnot
      push Not at hnot
      exact hvalid ⟨hnot.1, hnot.2.1, hnot.2.2⟩
    have hread : ¬s.Readable part x := fun h => hvalid h.1
    refine ⟨s.errorcache, ⟨code, x.1, x.2⟩, ?_, hcached, fun h => absurd h hread, fun _ => hcode⟩
    rw [checkedRead, if_pos hrange, if_neg hread, if_neg hread]
    rfl

/-- A state that reads of `s₀` lead to. -/
structure Reading (s₀ : State) (part : ℕ) (s : State) : Prop where
  eq : ∃ errorcache scratch error, s = { s₀ with errorcache, scratch, error }
  cached : s.Cached part

theorem Reading.setScratch (h : Reading s₀ part s) (scratch : ℕ → UInt8) :
    Reading s₀ part (s.setScratch scratch) := by
  obtain ⟨⟨errorcache, _, error, rfl⟩, hcached⟩ := h
  exact ⟨⟨errorcache, scratch, error, rfl⟩, hcached⟩

theorem Reading.setErrorTs (h : Reading s₀ part s) (code track sector : ℕ) :
    Reading s₀ part (s.setErrorTs code track sector) := by
  obtain ⟨⟨errorcache, scratch, _, rfl⟩, hcached⟩ := h
  exact ⟨⟨errorcache, scratch, _, rfl⟩, hcached⟩

/-- What a read of a sector gives while only reads are made. -/
theorem Reading.checkedRead (h : Reading s₀ part s) (hs : s₀.NoFault)
    (hm : (s₀.partition part).Mounted) (x : ℕ × ℕ) (buf : ℕ → UInt8) (len : ℕ) {code : ℕ}
    (hcode : code ≠ ERROR_OK) :
    ∃ s', checkedRead s part x.1 x.2 buf len code =
        (if s₀.Readable part x then 0 else 2,
          if s₀.Readable part x then
            Memory.write buf 0 len fun i => s₀.image part (s₀.offset part x.1 x.2 + i)
            else buf, s') ∧
      Reading s₀ part s' ∧ s'.scratch = s.scratch ∧ (s₀.Readable part x → s'.error = s.error) ∧
        (¬s₀.Readable part x → s'.error.code ≠ ERROR_OK) := by
  obtain ⟨⟨errorcache₀, scratch, error₀, rfl⟩, hcached⟩ := h
  have hs' : ({ s₀ with errorcache := errorcache₀, scratch, error := error₀ } : State).NoFault := hs
  obtain ⟨errorcache, error, heq, hcached', hgood, hbad⟩ :=
    checkedRead_cached hs' hm hcached x buf len hcode
  exact ⟨_, heq, ⟨⟨errorcache, scratch, error, rfl⟩, hcached'⟩, rfl, hgood, hbad⟩

theorem Reading.readEntry (h : Reading s₀ part s) (hs : s₀.NoFault) (dh : D64dh) :
    ∃ s', readEntry s part dh = (0, s') ∧ Reading s₀ part s' ∧ s'.error = s.error ∧
      ∀ i < 32, s'.scratch i = s₀.image part (entryOffset s₀ part dh + i) := by
  obtain ⟨⟨errorcache, scratch, error, rfl⟩, hcached⟩ := h
  have hs' : ({ s₀ with errorcache, scratch, error } : State).NoFault := hs
  rw [Dxx.readEntry, imageRead_ok hs']
  refine ⟨_, rfl, ⟨⟨errorcache, _, error, rfl⟩, hcached⟩, rfl, fun i hi => ?_⟩
  dsimp only [State.setScratch]
  rw [Memory.write_zero hi]
  rfl

/-- The entry that is read after `dh`, as the links of the image say. -/
def dirSector (s : State) (part : ℕ) (dh : D64dh) : Option D64dh :=
  if dh.entry = 8 then (s.link part (dh.track, dh.sector)).map fun x => ⟨x.1, x.2, 0⟩ else some dh

/-- The place of `nextdirentry` after the entry that follows `dh`. -/
def dirStep (s : State) (part : ℕ) (dh : D64dh) : Option D64dh :=
  (dirSector s part dh).bind fun dh =>
    if ValidTS (s.type part) (s.lastTrack part) dh.track dh.sector then
      some { dh with entry := dh.entry + 1 } else none

/-- The type of the file in the entry before `dh`, which is the one that was read. -/
def typeByte (s : State) (part : ℕ) (dh : D64dh) : UInt8 :=
  s.image part (entryOffset s part { dh with entry := dh.entry - 1 } + DIR_OFS_FILE_TYPE)

/-- The directory is at the end of its last sector. -/
def AtEnd (s : State) (part : ℕ) (dh : D64dh) : Prop :=
  dh.entry = 8 ∧ s.Readable part (dh.track, dh.sector) ∧
    (s.linkBytes part (dh.track, dh.sector)).1 = 0

theorem nextdirsector_reading (h : Reading s₀ part s) (hs : s₀.NoFault)
    (hm : (s₀.partition part).Mounted) (dh : D64dh) :
    ∃ res dh' s', nextdirsector part dh s = (res, dh', s') ∧ Reading s₀ part s' ∧
      (res = 0 → dirSector s₀ part dh = some dh') ∧ (res ≠ 0 → dirSector s₀ part dh = none) ∧
      (res < 0 ↔ AtEnd s₀ part dh) ∧ (res < 0 → dh' = dh) := by
  by_cases h8 : dh.entry = 8
  · obtain ⟨s', hread, hreading, -, -, -⟩ := h.checkedRead hs hm (dh.track, dh.sector) s.scratch 2
      (show ERROR_ILLEGAL_TS_LINK ≠ ERROR_OK by decide)
    rw [nextdirsector, if_pos h8, hread, dirSector, if_pos h8]
    dsimp only
    by_cases hok : s₀.Readable part (dh.track, dh.sector)
    · rw [if_pos hok, if_pos hok, if_neg (by decide)]
      have hbytes : ∀ i < 2, Memory.write s.scratch 0 2
          (fun i => s₀.image part (s₀.offset part dh.track dh.sector + i)) i =
            s₀.image part (s₀.offset part dh.track dh.sector + i) := fun i hi => Memory.write_zero hi
      have h0 := hbytes 0 (by decide)
      have h1 := hbytes 1 (by decide)
      rw [Nat.add_zero] at h0
      generalize Memory.write s.scratch 0 2 _ = buf at h0 h1 ⊢
      by_cases hlast : s₀.image part (s₀.offset part dh.track dh.sector) = 0
      · have hzero : (s₀.linkBytes part (dh.track, dh.sector)).1 = 0 := by
          rw [State.linkBytes, hlast]
          rfl
        have hnone : s₀.link part (dh.track, dh.sector) = none :=
          if_neg fun hboth => hboth.2 hzero
        rw [if_pos (show (s'.setScratch buf).scratch 0 = 0 from h0.trans hlast), hnone]
        exact ⟨-1, dh, _, rfl, hreading.setScratch _, fun hne => absurd hne (by decide), fun _ => rfl,
          ⟨fun _ => ⟨h8, hok, hzero⟩, fun _ => by decide⟩, fun _ => rfl⟩
      · have hzero : (s₀.linkBytes part (dh.track, dh.sector)).1 ≠ 0 := by
          intro h0
          exact hlast (UInt8.toNat_inj.mp h0)
        have hsome : s₀.link part (dh.track, dh.sector) =
            some (s₀.linkBytes part (dh.track, dh.sector)) := if_pos ⟨hok, hzero⟩
        rw [if_neg (show ¬(s'.setScratch buf).scratch 0 = 0 from fun h => hlast (h0.symm.trans h)),
          hsome]
        refine ⟨0, _, _, rfl, hreading.setScratch _, fun _ => ?_, fun hne => absurd rfl hne,
          ⟨fun hlt => absurd hlt (by decide), fun hend => absurd hend.2.2 hzero⟩,
          fun hlt => absurd hlt (by decide)⟩
        show some (D64dh.mk _ _ 0) = some (D64dh.mk (buf 0).toNat (buf 1).toNat 0)
        rw [h0, h1]
        rfl
    · have hnone : s₀.link part (dh.track, dh.sector) = none := if_neg fun hboth => hok hboth.1
      rw [if_neg hok, if_neg hok, if_pos (by decide), hnone]
      exact ⟨1, dh, _, rfl, hreading.setScratch _, fun hne => absurd hne (by decide), fun _ => rfl,
        ⟨fun hlt => absurd hlt (by decide), fun hend => absurd hend.2.1 hok⟩, fun _ => rfl⟩
  · rw [nextdirsector, if_neg h8, dirSector, if_neg h8]
    refine ⟨0, dh, s, rfl, h, fun _ => rfl, fun hne => absurd rfl hne, ?_, fun _ => rfl⟩
    exact ⟨fun hlt => absurd hlt (by decide), fun hend => absurd hend.1 h8⟩

theorem nextdirentry_reading (h : Reading s₀ part s) (hs : s₀.NoFault)
    (hm : (s₀.partition part).Mounted) (dh : D64dh) :
    ∃ res dh' s', nextdirentry part dh s = (res, dh', s') ∧ Reading s₀ part s' ∧
      (res = 0 → dirStep s₀ part dh = some dh' ∧
        s'.scratch DIR_OFS_FILE_TYPE = typeByte s₀ part dh') ∧
      (res ≠ 0 → dirStep s₀ part dh = none) ∧
      (res < 0 ↔ AtEnd s₀ part dh) ∧ (res < 0 → dh' = dh) := by
  obtain ⟨res, dh₁, s₁, hsector, hreading, hzero, hne, hend, hsame⟩ := nextdirsector_reading h hs hm dh
  rw [nextdirentry, hsector, dirStep]
  dsimp only
  by_cases hres : res = 0
  · subst hres
    have hnotend : ¬AtEnd s₀ part dh := fun hat => absurd (hend.mpr hat) (by decide)
    rw [if_neg (not_not.mpr rfl), hzero rfl, Option.bind_some]
    have hfmt : s₁.lastTrack part = s₀.lastTrack part ∧ s₁.type part = s₀.type part := by
      obtain ⟨⟨errorcache, scratch, error, rfl⟩, -⟩ := hreading
      exact ⟨rfl, rfl⟩
    by_cases hvalid : ValidTS (s₀.type part) (s₀.lastTrack part) dh₁.track dh₁.sector
    · obtain ⟨s₂, hread, hreading₂, -, hscratch⟩ := hreading.readEntry hs dh₁
      have hrange : ¬(dh₁.track < 1 ∨ dh₁.track > s₁.lastTrack part ∨
          dh₁.sector ≥ sectorsPerTrack (s₁.type part) dh₁.track) := by
        rw [hfmt.1, hfmt.2]
        obtain ⟨h1, h2, h3⟩ := hvalid
        omega
      rw [if_neg hrange, if_pos hvalid, hread]
      dsimp only
      rw [if_neg (not_not.mpr rfl)]
      refine ⟨0, _, s₂, rfl, hreading₂, fun _ => ⟨rfl, hscratch 2 (by decide)⟩,
        fun hne => absurd rfl hne, ⟨fun hlt => absurd hlt (by decide), fun hat => absurd hat hnotend⟩,
        fun hlt => absurd hlt (by decide)⟩
    · have hrange : dh₁.track < 1 ∨ dh₁.track > s₁.lastTrack part ∨
          dh₁.sector ≥ sectorsPerTrack (s₁.type part) dh₁.track := by
        rw [hfmt.1, hfmt.2]
        by_contra hnot
        push Not at hnot
        exact hvalid ⟨hnot.1, hnot.2.1, hnot.2.2⟩
      rw [if_pos hrange, if_neg hvalid]
      exact ⟨1, dh₁, _, rfl, hreading.setErrorTs _ _ _, fun hne => absurd hne (by decide),
        fun _ => rfl, ⟨fun hlt => absurd hlt (by decide), fun hat => absurd hat hnotend⟩,
        fun hlt => absurd hlt (by decide)⟩
  · rw [if_pos hres, hne hres]
    exact ⟨res, dh₁, s₁, rfl, hreading, fun h0 => absurd h0 hres, fun _ => rfl, hend, hsame⟩

/-! ### Entries and sectors -/

variable {stop : D64dh → Bool}

/-- A walk along the entries that ends when it has read one that `stop` holds of. -/
def walkEntries (s : State) (part : ℕ) (stop : D64dh → Bool) (dh : D64dh) : Option D64dh :=
  (dirStep s part dh).filter fun dh => !stop dh

/-- The same walk from sector to sector. -/
def walkSectors (s : State) (part : ℕ) (stop : D64dh → Bool) (x : ℕ × ℕ) : Option (ℕ × ℕ) :=
  if ValidTS (s.type part) (s.lastTrack part) x.1 x.2 ∧
      (List.range 8).any (fun e => stop ⟨x.1, x.2, e + 1⟩) = true then none
  else s.link part x

theorem dirStep_within {x : ℕ × ℕ} {e : ℕ} (he : e ≠ 8) :
    dirStep s part ⟨x.1, x.2, e⟩ =
      if ValidTS (s.type part) (s.lastTrack part) x.1 x.2 then some ⟨x.1, x.2, e + 1⟩ else none := by
  rw [dirStep, dirSector, if_neg he]
  rfl

theorem dirStep_last (x : ℕ × ℕ) :
    dirStep s part ⟨x.1, x.2, 8⟩ = (s.link part x).bind fun y =>
      if ValidTS (s.type part) (s.lastTrack part) y.1 y.2 then some ⟨y.1, y.2, 1⟩ else none := by
  rw [dirStep, dirSector, if_pos rfl]
  cases s.link part x <;> rfl

theorem link_of_not_valid {x : ℕ × ℕ} (h : ¬ValidTS (s.type part) (s.lastTrack part) x.1 x.2) :
    s.link part x = none :=
  if_neg fun hboth => h hboth.1.1

theorem walkSectors_of_not_valid {x : ℕ × ℕ}
    (h : ¬ValidTS (s.type part) (s.lastTrack part) x.1 x.2) : walkSectors s part stop x = none := by
  rw [walkSectors, if_neg fun hboth => h hboth.1, link_of_not_valid h]

theorem walkSectors_of_stop {x : ℕ × ℕ} {e : ℕ}
    (h : ValidTS (s.type part) (s.lastTrack part) x.1 x.2) (he : e < 8)
    (hstop : stop ⟨x.1, x.2, e + 1⟩ = true) : walkSectors s part stop x = none :=
  if_pos ⟨h, List.any_eq_true.mpr ⟨e, List.mem_range.mpr he, hstop⟩⟩

theorem walkSectors_of_go {x : ℕ × ℕ} (h : ∀ e < 8, stop ⟨x.1, x.2, e + 1⟩ = false) :
    walkSectors s part stop x = s.link part x := by
  refine if_neg fun hboth => ?_
  obtain ⟨e, he, hstop⟩ := List.any_eq_true.mp hboth.2
  rw [h e (List.mem_range.mp he)] at hstop
  cases hstop

/-- Walking along the entries ends where walking along the sectors does. -/
theorem ends_walkEntries_iff {x : ℕ × ℕ} {e : ℕ} (he : e ≤ 8)
    (hgo : ∀ e' < e, stop ⟨x.1, x.2, e' + 1⟩ = false) :
    Walk.Ends (walkEntries s part stop) ⟨x.1, x.2, e⟩ ↔ Walk.Ends (walkSectors s part stop) x := by
  constructor
  · intro h
    generalize hdh : (⟨x.1, x.2, e⟩ : D64dh) = dh at h
    induction h generalizing x e with
    | @intro dh hall ih =>
      subst hdh
      by_cases hvalid : ValidTS (s.type part) (s.lastTrack part) x.1 x.2
      · by_cases h8 : e = 8
        · subst h8
          refine .intro fun y hy => ?_
          have hlink : s.link part x = some y := by rwa [walkSectors_of_go hgo] at hy
          by_cases hvalidy : ValidTS (s.type part) (s.lastTrack part) y.1 y.2
          · cases hstop : stop ⟨y.1, y.2, 1⟩ with
            | true => exact Walk.ends_of_none (walkSectors_of_stop hvalidy (by decide) hstop)
            | false =>
              refine ih ⟨y.1, y.2, 1⟩ ?_ (by decide) (fun e' he' => ?_) rfl
              · rw [walkEntries, dirStep_last, hlink, Option.bind_some, if_pos hvalidy]
                simp [hstop]
              · rwa [show e' = 0 by omega]
          · exact Walk.ends_of_none (walkSectors_of_not_valid hvalidy)
        · cases hstop : stop ⟨x.1, x.2, e + 1⟩ with
          | true => exact Walk.ends_of_none (walkSectors_of_stop hvalid (by omega) hstop)
          | false =>
            refine ih ⟨x.1, x.2, e + 1⟩ ?_ (by omega) (fun e' he' => ?_) rfl
            · rw [walkEntries, dirStep_within h8, if_pos hvalid]
              simp [hstop]
            · by_cases hlast : e' = e
              · rwa [hlast]
              · exact hgo e' (by omega)
      · exact Walk.ends_of_none (walkSectors_of_not_valid hvalid)
  · intro h
    induction h generalizing e with
    | @intro x hall ih =>
      induction hd : 8 - e generalizing e with
      | zero =>
        obtain rfl : e = 8 := by omega
        refine .intro fun dh' hdh' => ?_
        rw [walkEntries, dirStep_last, Option.filter_eq_some_iff] at hdh'
        obtain ⟨hstep, hstop⟩ := hdh'
        obtain ⟨y, hlink, hy⟩ := Option.bind_eq_some_iff.mp hstep
        split at hy
        · cases hy
          refine ih y (by rw [walkSectors_of_go hgo, hlink]) (by decide) fun e' he' => ?_
          rw [show e' = 0 by omega]
          simpa using hstop
        · cases hy
      | succ d ihd =>
        refine .intro fun dh' hdh' => ?_
        rw [walkEntries, dirStep_within (by omega), Option.filter_eq_some_iff] at hdh'
        obtain ⟨hstep, hstop⟩ := hdh'
        split at hstep
        · cases hstep
          refine ihd (by omega) (fun e' he' => ?_) (by omega)
          by_cases hlast : e' = e
          · rw [hlast]
            simpa using hstop
          · exact hgo e' (by omega)
        · cases hstep

/-- The sectors on the disk. -/
def OnDisk (s : State) (part : ℕ) : Set (ℕ × ℕ) := { x | ValidTS (s.type part) (s.lastTrack part) x.1 x.2 }

theorem finite_onDisk (s : State) (part : ℕ) : (OnDisk s part).Finite := by
  refine (Finset.finite_toSet (Finset.range (s.lastTrack part + 1) ×ˢ Finset.range 257)).subset fun x hx => ?_
  have hle := sectorsPerTrack_le_256 (s.type part) x.1
  obtain ⟨h1, h2, h3⟩ : ValidTS (s.type part) (s.lastTrack part) x.1 x.2 := hx
  rw [Finset.mem_coe, Finset.mem_product, Finset.mem_range, Finset.mem_range]
  exact ⟨by omega, by omega⟩

/-- Only sectors on the disk lead to others. -/
theorem onDisk_of_walkSectors {x y : ℕ × ℕ} (h : walkSectors s part stop x = some y) : x ∈ OnDisk s part := by
  by_contra hnot
  rw [walkSectors_of_not_valid hnot] at h
  cases h

/-- A walk along the sectors ends exactly if it comes to no sector twice. -/
theorem ends_walkSectors_iff (x : ℕ × ℕ) :
    Walk.Ends (walkSectors s part stop) x ↔ ¬Walk.Revisits (walkSectors s part stop) x := by
  exact Walk.ends_iff_not_revisits (finite_onDisk s part) fun _ _ => onDisk_of_walkSectors

end NoDiskEmu.Dxx
