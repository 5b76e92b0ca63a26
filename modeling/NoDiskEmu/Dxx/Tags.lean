import NoDiskEmu.Dxx.Faults
import NoDiskEmu.Dxx.Marking

/-! What the BAM buffers are tagged with. An access that fails may spoil the bytes of a buffer, but not
its tag, so the buffers are told apart whatever becomes of the accesses. -/

namespace NoDiskEmu.Dxx

open Library

variable {s s' : State} {part track sector : ℕ} {a b : BamBuffer}

/-! ### Tags -/

/-- A BAM buffer is empty, or tagged with a BAM sector of some partition. -/
structure TagOk (s : State) (b : BamBuffer) : Prop where
  empty : b.part = 255 → b.mustflush = false
  part : b.part ≠ 255 → b.part < s.maxPart
  bam : b.part ≠ 255 → IsBamSector (s.type b.part) b.track b.sector

theorem BufferOk.tagOk (h : BufferOk s b) : TagOk s b := ⟨h.empty, h.part, h.bam⟩

/-- A buffer that must be flushed cannot disagree with its tag. -/
theorem TagOk.bufferOk (h : TagOk s b) (hdirty : b.mustflush = true) : BufferOk s b :=
  ⟨h.empty, h.part, h.bam, fun _ hclean => by rw [hdirty] at hclean; cases hclean⟩

theorem TagOk.sameFormat (h : TagOk s b) (hsame : SameFormat s s') : TagOk s' b := by
  refine ⟨h.empty, fun hvalid => ?_, fun hvalid => ?_⟩
  · rw [hsame.maxPart]
    exact h.part hvalid
  · rw [hsame.type]
    exact h.bam hvalid

/-- The two buffers have tags, and different ones. -/
structure HasTags (s : State) : Prop where
  maxPart : s.maxPart ≤ 255
  first : TagOk s s.bamBuffer
  second : ∀ b, s.bamBuffer2 = some b → TagOk s b
  apart : ∀ b, s.bamBuffer2 = some b → b.part ≠ 255 → ¬SameTag s.bamBuffer b

theorem Coherent.hasTags (hs : Coherent s) : HasTags s :=
  ⟨hs.maxPart, hs.first.tagOk, fun b hb => (hs.second b hb).tagOk, hs.apart⟩

/-- Only the tags and the formats of the images matter. -/
theorem HasTags.congr (hs : HasTags s) (hsame : SameFormat s s') (hfirst : s'.bamBuffer = s.bamBuffer)
    (hsecond : s'.bamBuffer2 = s.bamBuffer2) : HasTags s' := by
  refine ⟨by rw [hsame.maxPart]; exact hs.maxPart, ?_, fun b hb => ?_, fun b hb => ?_⟩
  · rw [hfirst]
    exact hs.first.sameFormat hsame
  · exact (hs.second b (hsecond ▸ hb)).sameFormat hsame
  · rw [hfirst]
    exact hs.apart b (hsecond ▸ hb)

/-- The first buffer may get other bytes, and be marked for flushing while it has a sector. -/
theorem HasTags.setBuffer (hs : HasTags s) (data : ℕ → UInt8) (mustflush : Bool)
    (hflush : mustflush = true → s.bamBuffer.part ≠ 255) :
    HasTags { s with bamBuffer := { s.bamBuffer with data, mustflush } } := by
  refine ⟨hs.maxPart, ⟨fun hempty => ?_, hs.first.part, hs.first.bam⟩, fun b hb => ?_, hs.apart⟩
  · by_contra hdirty
    exact hflush (by simpa using hdirty) hempty
  · exact (hs.second b hb).sameFormat ((SameFormat.refl s).congr rfl rfl)

theorem HasTags.swap (hs : HasTags s) : HasTags (bamBufferSwap s) := by
  cases hsecond : s.bamBuffer2 with
  | none =>
    rw [bamBufferSwap, hsecond]
    exact hs
  | some b =>
    rw [bamBufferSwap, hsecond]
    have hformat : ∀ b b', SameFormat s { s with bamBuffer := b, bamBuffer2 := b' } := fun b b' =>
      (SameFormat.refl s).congr rfl rfl
    refine ⟨hs.maxPart, (hs.second b hsecond).sameFormat (hformat _ _), ?_, ?_⟩
    · rintro _ ⟨⟩
      exact hs.first.sameFormat (hformat _ _)
    · rintro _ ⟨⟩ hvalid htag
      exact hs.apart b hsecond (htag.1 ▸ hvalid) htag.symm

/-- A new second buffer is empty. -/
theorem HasTags.alloc (hs : HasTags s) : HasTags (bamBufferAlloc2 s).2 := by
  rw [bamBufferAlloc2]
  dsimp only
  split
  · refine ⟨hs.maxPart, hs.first.sameFormat ((SameFormat.refl s).congr rfl rfl), ?_, ?_⟩ <;> rintro _ ⟨⟩
  · refine ⟨hs.maxPart, hs.first.sameFormat ((SameFormat.refl s).congr rfl rfl), ?_, ?_⟩
    · rintro _ ⟨⟩
      exact ⟨fun _ => rfl, fun h => absurd rfl h, fun h => absurd rfl h⟩
    · rintro _ ⟨⟩ hvalid
      exact absurd rfl hvalid

theorem HasTags.choose (hs : HasTags s) : HasTags (chooseBam s) := by
  rw [chooseBam]
  split
  · exact hs.swap
  · split
    · dsimp only
      split
      · exact hs.alloc.congr ((SameFormat.refl _).congr rfl rfl) rfl rfl
      · exact hs.alloc.swap
    · exact hs

/-- A tagged buffer that is not written need not be. -/
theorem TagOk.clean (hb : TagOk s b) (h : ¬(b.mustflush && decide (b.part < s.maxPart)) = true) :
    b.mustflush = false := by
  by_contra hdirty
  have hpart := hb.part fun hempty => hdirty (hb.empty hempty)
  exact h (by simpa [hpart] using hdirty)

/-- What a flush leaves of the first buffer, and of the rest. -/
theorem flushBam_buffers (hs : HasTags s) : (flushBam s).2.bamBuffer = { s.bamBuffer with mustflush := false } ∧
    (flushBam s).2.bamBuffer2 = s.bamBuffer2 := by
  have hwrite : ∀ off data, (imageWrite s s.bamBuffer.part off 256 data).2.bamBuffer2 = s.bamBuffer2 := by
    intro off data
    rw [imageWrite]
    split <;> rfl
  rw [flushBam, bamBufferFlush]
  split
  · exact ⟨rfl, hwrite _ _⟩
  · next hno =>
    refine ⟨?_, rfl⟩
    dsimp only
    rw [← hs.first.clean hno]

theorem HasTags.flush (hs : HasTags s) : HasTags (flushBam s).2 := by
  obtain ⟨hfirst, hsecond⟩ := flushBam_buffers hs
  have hclean := hs.setBuffer s.bamBuffer.data false (fun h => by cases h)
  obtain ⟨himagetype, hd64data, hmax⟩ := flushBam_sameFormat s
  exact hclean.congr ⟨himagetype, hd64data, hmax⟩ hfirst hsecond

theorem imageRead_tags (s : State) (part off n : ℕ) (buf : ℕ → UInt8) :
    (imageRead s part off n buf).2.2.bamBuffer = s.bamBuffer ∧
      (imageRead s part off n buf).2.2.bamBuffer2 = s.bamBuffer2 ∧
      (imageRead s part off n buf).2.2.partition = s.partition := by
  rw [imageRead]
  split <;> exact ⟨rfl, rfl, rfl⟩

/-- A load gives the first buffer its new tag only with the bytes. -/
theorem HasTags.load (hs : HasTags s) (hpart : part < s.maxPart) (hbam : IsBamSector (s.type part) track sector)
    (hother : ∀ b, s.bamBuffer2 = some b → ¬bamBufferMatch b part track sector = true) :
    HasTags (loadBam s part track sector).2 := by
  obtain ⟨-, hsecond⟩ := flushBam_buffers hs
  have hflush := hs.flush
  have hsame := flushBam_sameFormat s
  rw [loadBam]
  dsimp only
  split
  · exact hflush
  · generalize (flushBam s).2 = f at hsecond hflush hsame ⊢
    generalize hread : imageRead f part (f.offset part track sector) 256 f.bamBuffer.data = r
    have hformat := imageRead_sameFormat f part (f.offset part track sector) 256 f.bamBuffer.data
    obtain ⟨hfirst', hsecond', -⟩ := imageRead_tags f part (f.offset part track sector) 256 f.bamBuffer.data
    rw [hread] at hformat hfirst' hsecond'
    split
    · have hdata := hflush.setBuffer r.2.1 f.bamBuffer.mustflush (fun hdirty hempty => by
        rw [hflush.first.empty hempty] at hdirty
        cases hdirty)
      obtain ⟨himagetype, hd64data, hmax⟩ := hformat
      exact hdata.congr ⟨himagetype, hd64data, hmax⟩ rfl hsecond'
    · have hformat' := hsame.trans hformat
      have hmax : r.2.2.maxPart = s.maxPart := hformat'.maxPart
      have htype : r.2.2.type = s.type := hformat'.type
      rw [hsecond] at hsecond'
      refine ⟨hmax.le.trans hs.maxPart, ⟨fun hempty => ?_, fun _ => hpart.trans_eq hmax.symm, fun _ => ?_⟩,
        fun b hb => (hs.second b (hsecond' ▸ hb)).sameFormat (hformat'.congr rfl rfl), fun b hb _ htag => ?_⟩
      · have hempty' : part = 255 := hempty
        have hle := hs.maxPart
        omega
      · show IsBamSector (r.2.2.type part) track sector
        rw [htype]
        exact hbam
      · exact hother b (hsecond' ▸ hb) (bamBufferMatch_iff.mpr ⟨htag.1.symm, htag.2.1.symm, htag.2.2.symm⟩)

theorem HasTags.move (hs : HasTags s) (hpart : part < s.maxPart) (htrack : track ≤ 255) (data : BamData) :
    HasTags (moveBamWindow s part track data).2.2 := by
  have hbam := isBamSector_bamPosition (s.type part) htrack data
  have hsame := chooseBam_sameFormat s
  rw [moveBamWindow]
  dsimp only
  split
  · exact hs
  · next hno =>
    split
    · exact hs.choose
    · exact hs.choose.load (by rw [hsame.maxPart]; exact hpart) (by rw [hsame.type]; exact hbam)
        fun b hb => by rw [chooseBam_second hb]; exact hno

theorem HasTags.isFree (hs : HasTags s) (hpart : part < s.maxPart) (htrack : track ≤ 255) (sector : ℕ) :
    HasTags (isFree s part track sector).2 := by
  rw [isFree_snd]
  exact hs.move hpart htrack .bitfield

theorem HasTags.sectorsFree (hs : HasTags s) (hpart : part < s.maxPart) (hm : (s.partition part).Mounted) (track : ℕ) :
    HasTags (sectorsFree s part track).2 := by
  rw [Dxx.sectorsFree]
  split
  · exact hs
  · next hrange =>
    have hlast : s.lastTrack part ≤ 255 := hm.lastTrack_le
    have hmove := hs.move hpart (show track ≤ 255 by omega) .freecount
    dsimp only
    split <;> exact hmove

/-! ### The view -/

/-- Buffers with different tags can be written back in any order. -/
theorem TagOk.patch_comm (ha : TagOk s a) (hb : TagOk s b) (h : b.part ≠ 255 → ¬SameTag a b)
    (images : ℕ → ℕ → UInt8) :
    patch s.type a (patch s.type b images) = patch s.type b (patch s.type a images) := by
  by_cases hdirty : a.mustflush = true ∧ b.mustflush = true
  · exact Dxx.patch_comm (ha.bufferOk hdirty.1) (hb.bufferOk hdirty.2) h images
  · rcases not_and_or.mp hdirty with hclean | hclean
    · rw [patch_clean (b := a) (by simpa using hclean), patch_clean (b := a) (by simpa using hclean)]
    · rw [patch_clean (b := b) (by simpa using hclean), patch_clean (b := b) (by simpa using hclean)]

theorem HasTags.swap_view (hs : HasTags s) : (bamBufferSwap s).view = s.view := by
  cases hsecond : s.bamBuffer2 with
  | none => rw [bamBufferSwap, hsecond]
  | some b =>
    rw [bamBufferSwap, hsecond, State.view, State.view, hsecond]
    exact (hs.first.patch_comm (hs.second b hsecond) (hs.apart b hsecond) _).symm

theorem bamBufferAlloc2_view (hsecond : s.bamBuffer2 = none) : (bamBufferAlloc2 s).2.view = s.view := by
  rw [bamBufferAlloc2]
  dsimp only
  split
  · rw [State.view, State.view, hsecond]
    rfl
  · next data slot _ =>
    rw [State.view, State.view, hsecond]
    show patch s.type s.bamBuffer (patch s.type ⟨255, 0, 0, false, data, slot⟩ s.image) = _
    rw [patch_clean (b := ⟨255, 0, 0, false, data, slot⟩) rfl]

theorem HasTags.choose_view (hs : HasTags s) : (chooseBam s).view = s.view := by
  rw [chooseBam]
  split
  · exact hs.swap_view
  · next hsecond =>
    have halloc := bamBufferAlloc2_view hsecond
    split
    · dsimp only
      split
      · exact halloc
      · exact hs.alloc.swap_view.trans halloc
    · rfl

/-- A flush that succeeds is not seen. -/
theorem HasTags.flush_view (hs : HasTags s) (h : (flushBam s).1 = 0) : (flushBam s).2.view = s.view := by
  obtain ⟨hfirst, hsecond⟩ := flushBam_buffers hs
  have htype := (flushBam_sameFormat s).type
  have himage : (flushBam s).2.image = patch s.type s.bamBuffer s.image := by
    rw [flushBam, bamBufferFlush] at h ⊢
    by_cases hwrites : (s.bamBuffer.mustflush && decide (s.bamBuffer.part < s.maxPart)) = true
    · rw [if_pos hwrites] at h ⊢
      have hdirty : s.bamBuffer.mustflush = true := (Bool.and_eq_true _ _ ▸ hwrites).1
      rw [imageWrite, imageWrite_succeeds h, patch, if_pos hdirty]
      exact State.image_setImage s _ _
    · rw [if_neg hwrites, patch_clean (hs.first.clean hwrites)]
  rw [State.view, State.view, hfirst, hsecond, patch_clean rfl, htype, himage]
  cases hb : s.bamBuffer2 with
  | none => rfl
  | some b => exact (hs.first.patch_comm (hs.second b hb) (hs.apart b hb) _).symm

/-- A load that succeeds is not seen. -/
theorem HasTags.load_view (hs : HasTags s) (h : (loadBam s part track sector).1 = 0) :
    (loadBam s part track sector).2.view = s.view := by
  obtain ⟨hfirst, -⟩ := flushBam_buffers hs
  rw [loadBam] at h ⊢
  dsimp only at h ⊢
  split at h
  · cases h
  · next hflush =>
    rw [if_neg hflush]
    split at h
    · next hread => exact absurd h hread
    · next hread =>
      rw [if_neg hread, ← hs.flush_view (not_not.mp hflush)]
      obtain ⟨-, hsecond', hpartition⟩ := imageRead_tags (flushBam s).2 part
        ((flushBam s).2.offset part track sector) 256 (flushBam s).2.bamBuffer.data
      have hclean : (flushBam s).2.bamBuffer.mustflush = false := by rw [hfirst]
      generalize imageRead (flushBam s).2 part ((flushBam s).2.offset part track sector) 256
        (flushBam s).2.bamBuffer.data = r at hsecond' hpartition
      have himage : r.2.2.image = (flushBam s).2.image := by unfold State.image; rw [hpartition]
      have htype : r.2.2.type = (flushBam s).2.type := by unfold State.type; rw [hpartition]
      rw [State.view, State.view, patch_clean hclean, patch_clean (by exact hclean)]
      dsimp only
      rw [hsecond', ← himage, ← htype]
      rfl

/-- Nothing is seen of a window that could be moved. -/
theorem HasTags.move_view (hs : HasTags s) {data : BamData} (h : (moveBamWindow s part track data).1 = 0) :
    (moveBamWindow s part track data).2.2.view = s.view := by
  rw [moveBamWindow] at h ⊢
  dsimp only at h ⊢
  split at h
  · next hmatch => rw [if_pos hmatch]
  · next hno =>
    rw [if_neg hno]
    split at h
    · next hmatch =>
      rw [if_pos hmatch]
      exact hs.choose_view
    · next hno' =>
      rw [if_neg hno']
      exact (hs.choose.load_view h).trans hs.choose_view

/-! ### Bytes of the view -/

theorem patch_outside {type : ℕ → DxxType} {images : ℕ → ℕ → UInt8} {o : ℕ}
    (h : part = b.part → o < sectorOffset (type part) b.track b.sector ∨
      sectorOffset (type part) b.track b.sector + 256 ≤ o) : patch type b images part o = images part o := by
  rcases patch_apply type b images part o with heq | ⟨rfl, -, hlow, hhigh⟩
  · exact heq
  · have hout := h rfl
    omega

theorem patch_dirty (type : ℕ → DxxType) (images : ℕ → ℕ → UInt8) (hdirty : b.mustflush = true) :
    patch type b images b.part =
      Memory.write (images b.part) (sectorOffset (type b.part) b.track b.sector) 256 b.data := by
  rw [patch, if_pos hdirty, Function.update_self]

/-- The byte of the window that is written is seen. -/
theorem view_setBamByte_self {pos : ℕ} (hpos : pos < 256) (value : UInt8) :
    (setBamByte s pos value).view s.bamBuffer.part
      (s.offset s.bamBuffer.part s.bamBuffer.track s.bamBuffer.sector + pos) = value := by
  have hsector := patch_dirty s.type s.behind (b := (setBamByte s pos value).bamBuffer) rfl
  refine (congrFun hsector _).trans ?_
  have hbyte : (setBamByte s pos value).bamBuffer.data pos = value := Function.update_self _ _ _
  exact (Memory.write_inside hpos).trans hbyte

/-- The other sectors are seen as before, and also the other bytes of a sector that was to be flushed. -/
theorem view_setBamByte_other {pos p o : ℕ} (value : UInt8)
    (h : p = s.bamBuffer.part → s.bamBuffer.mustflush = true ∧ pos < 256 ∧
        o ≠ s.offset s.bamBuffer.part s.bamBuffer.track s.bamBuffer.sector + pos ∨
      o < s.offset s.bamBuffer.part s.bamBuffer.track s.bamBuffer.sector ∨
      s.offset s.bamBuffer.part s.bamBuffer.track s.bamBuffer.sector + 256 ≤ o) :
    (setBamByte s pos value).view p o = s.view p o := by
  have hout : (p = s.bamBuffer.part → o < s.offset s.bamBuffer.part s.bamBuffer.track s.bamBuffer.sector ∨
      s.offset s.bamBuffer.part s.bamBuffer.track s.bamBuffer.sector + 256 ≤ o) →
      (setBamByte s pos value).view p o = s.view p o := by
    intro hout
    have hnew : patch s.type (setBamByte s pos value).bamBuffer s.behind p o = s.behind p o :=
      patch_outside fun heq => heq ▸ hout heq
    have hold : patch s.type s.bamBuffer s.behind p o = s.behind p o := patch_outside fun heq => heq ▸ hout heq
    exact hnew.trans hold.symm
  by_cases hpart : p = s.bamBuffer.part
  · rcases h hpart with ⟨hdirty, hpos, hne⟩ | hoff
    · subst hpart
      have hnew := patch_dirty s.type s.behind (b := (setBamByte s pos value).bamBuffer) rfl
      have hold := patch_dirty s.type s.behind hdirty
      refine (congrFun hnew o).trans ((Eq.trans ?_ (congrFun hold o).symm))
      show Memory.write _ (s.offset s.bamBuffer.part s.bamBuffer.track s.bamBuffer.sector) 256
        (Function.update s.bamBuffer.data pos value) o = _
      rw [Memory.write_update hpos]
      exact Function.update_of_ne hne _ _
    · exact hout fun _ => hoff
  · exact hout fun heq => absurd heq hpart

/-! ### A sector that is allocated -/

/-- The bit of a sector is in one byte of what is seen. -/
theorem isFree_through (hsame : SameFormat s s') (part track sector : ℕ) :
    (s'.through part).isFree track sector =
      Bits.test (s'.view part ((s.through part).bitAddress track sector)) (sectorMask (s.isDnp part) sector) := by
  have htype : (s'.through part).imagetype = (s.through part).imagetype := hsame.imagetype part
  rw [Partition.isFree, Partition.bitAddress, Partition.bitAddress, Partition.bamAddress, Partition.bamAddress,
    Partition.isDnp, htype]
  rfl

/-- A byte of one BAM sector is not in another one. -/
theorem bamSectors_apart {type : DxxType} {t q t' q' pos : ℕ} (h : IsBamSector type t q)
    (h' : IsBamSector type t' q') (hne : ¬(t = t' ∧ q = q')) (hpos : pos < 256) :
    sectorOffset type t q + pos < sectorOffset type t' q' ∨
      sectorOffset type t' q' + 256 ≤ sectorOffset type t q + pos := by
  have hlba : sectorLba type t q ≠ sectorLba type t' q' := fun heq => hne (bamSector_injective h h' heq)
  rw [sectorOffset, sectorOffset]
  omega

/-- The counter of a track leaves the bits of its sectors alone. -/
theorem HasTags.adjustCount_bit (hs : HasTags s) (hr : InRange s part track sector) (hdnp : s.type part ≠ .dnp)
    (hmatch : bamBufferMatch s.bamBuffer part (bamPosition (s.type part) track .bitfield).1
      (bamPosition (s.type part) track .bitfield).2.1 = true) (hdirty : s.bamBuffer.mustflush = true)
    {setCount : UInt8 → Option UInt8} (h : (adjustCount s part track setCount).1 = 0) :
    (adjustCount s part track setCount).2.view part ((s.through part).bitAddress track sector) =
      s.view part ((s.through part).bitAddress track sector) := by
  have hle := hr.inBuffer.le
  have hmove : (moveBamWindow s part track .freecount).1 = 0 := by
    by_contra hfail
    rw [adjustCount, if_pos hfail] at h
    cases h
  have hview := hs.move_view hmove
  have hpos := moveBamWindow_pos s part track .freecount
  have hformat := moveBamWindow_sameFormat s part track .freecount
  have hwindow := (moveBamWindow_match s part track .freecount).mpr hmove
  have hstay : bamBufferMatch s.bamBuffer part (bamPosition (s.type part) track .freecount).1
      (bamPosition (s.type part) track .freecount).2.1 = true →
      moveBamWindow s part track .freecount = (0, (bamPosition (s.type part) track .freecount).2.2, s) :=
    moveBamWindow_of_match
  rw [adjustCount, if_neg (not_not.mpr hmove)]
  split
  · rw [hview]
  · next count _ =>
    rw [← hview]
    refine view_setBamByte_other count fun _ => ?_
    obtain ⟨hpart, htrack, hsector⟩ := bamBufferMatch_iff.mp hwindow
    rw [hpart, htrack, hsector, hformat.offset, hpos]
    by_cases hsame : (bamPosition (s.type part) track .bitfield).1 = (bamPosition (s.type part) track .freecount).1 ∧
        (bamPosition (s.type part) track .bitfield).2.1 = (bamPosition (s.type part) track .freecount).2.1
    · -- the window stays where the bit has been changed
      rw [hsame.1, hsame.2] at hmatch
      rw [hstay hmatch]
      refine .inl ⟨hdirty, (bamPosition_freecount (s.type part) track).1, ?_⟩
      exact Partition.bitAddress_ne_count (p := s.through part) hr.mounted hdnp hr.valid hr.valid.1 hr.valid.2.1
    · refine .inr ?_
      have hapart := bamSectors_apart (isBamSector_bamPosition (s.type part) hle .bitfield)
        (isBamSector_bamPosition (s.type part) hle .freecount) hsame hr.inBuffer.pos
      rw [← Nat.add_assoc] at hapart
      exact hapart

/-- A sector that `is_free` finds is not seen as free after `allocate_sector` has succeeded. -/
theorem HasTags.allocated (hs : HasTags s) (hr : InRange s part track sector)
    (hfree : 0 < (Dxx.isFree s part track sector).1) (h : (allocateSector s part track sector).1 = 0) :
    ((allocateSector s part track sector).2.through part).isFree track sector = false := by
  have hle := hr.inBuffer.le
  have hmove : (moveBamWindow s part track .bitfield).1 = 0 := by
    by_contra hfail
    rw [Dxx.isFree] at hfree
    dsimp only at hfree
    rw [if_pos hfail] at hfree
    exact absurd hfree (show ¬(0 : ℤ) < -1 by decide)
  have hmatch := (moveBamWindow_match s part track .bitfield).mpr hmove
  have htags := hs.move hr.lt hle .bitfield
  have hformat := moveBamWindow_sameFormat s part track .bitfield
  have hafter := allocateSector_sameFormat s part track sector
  have hrange := hr.sameFormat hformat
  rw [isFree_through hafter]
  rw [allocateSector, if_neg (by omega), if_pos (by omega), isFree_snd] at h ⊢
  generalize (moveBamWindow s part track .bitfield).2.2 = f at hmatch htags hformat hrange h ⊢
  rw [← hformat.type] at hmatch
  obtain ⟨hpart, htrack, hsector⟩ := bamBufferMatch_iff.mp hmatch
  have hdnpEq : f.isDnp part = s.isDnp part := by
    rw [State.isDnp, hformat.imagetype]
    rfl
  rw [flipSector, moveBamWindow_of_match hmatch] at h ⊢
  dsimp only at h ⊢
  rw [if_neg (not_not.mpr rfl), hdnpEq] at h ⊢
  generalize hbyte : f.bamBuffer.data ((bamPosition (f.type part) track .bitfield).2.2 + sector / 8) &&&
    ~~~sectorMask (s.isDnp part) sector = byte at h ⊢
  have hbit : Bits.test byte (sectorMask (s.isDnp part) sector) = false := by
    rw [← hbyte]
    exact Bits.test_clear_self _ _
  have haddress : (s.through part).bitAddress track sector =
      f.offset f.bamBuffer.part f.bamBuffer.track f.bamBuffer.sector +
        ((bamPosition (f.type part) track .bitfield).2.2 + sector / 8) := by
    rw [hpart, htrack, hsector, hformat.offset, hformat.type, ← Nat.add_assoc]
    rfl
  have hseen : (setBamByte f ((bamPosition (f.type part) track .bitfield).2.2 + sector / 8) byte).view part
      ((s.through part).bitAddress track sector) = byte := by
    have hself := view_setBamByte_self (s := f) hrange.inBuffer.pos byte
    rwa [← haddress, hpart] at hself
  split at h
  · next hdnp =>
    rw [if_pos hdnp, hseen]
    exact hbit
  · next hdnp =>
    rw [if_neg hdnp]
    have htype : s.type part ≠ .dnp := fun htype => hdnp (hr.mounted.isDnp_iff.mpr htype)
    have hvalid : f.bamBuffer.part ≠ 255 := by
      rw [hpart]
      have hmax := hs.maxPart
      have hlt := hr.lt
      omega
    have hset : HasTags (setBamByte f ((bamPosition (f.type part) track .bitfield).2.2 + sector / 8) byte) :=
      htags.setBuffer _ true fun _ => hvalid
    have hkept := hset.adjustCount_bit (hrange.sameFormat ((SameFormat.refl f).congr rfl rfl))
      (by rw [show State.type (setBamByte f _ byte) = f.type from rfl, hformat.type]; exact htype) hmatch rfl h
    have htype' : ((setBamByte f ((bamPosition (f.type part) track .bitfield).2.2 + sector / 8) byte).through part).imagetype =
        (s.through part).imagetype := hformat.imagetype part
    rw [Partition.bitAddress, Partition.bamAddress, htype'] at hkept
    refine Eq.trans (congrArg (Bits.test · _) (hkept.trans hseen)) hbit

end NoDiskEmu.Dxx
