import NoDiskEmu.Dxx.Bam

/-! The image as seen through the BAM buffers.  While no access to an image file fails, the cached
operations on the BAM act on this view as the same operations act directly on the image files. -/

namespace NoDiskEmu.Dxx

open Library

/-! ### The BAM sectors of an image -/

/-- The sectors that `move_bam_window` reads. -/
def IsBamSector : DxxType → ℕ → ℕ → Prop
  | .d41, t, s | .none, t, s => t = 18 ∧ s = 0
  | .d71, t, s => t = 18 ∧ s = 0 ∨ t = 53 ∧ s = 0
  | .d81, t, s => t = 40 ∧ (s = 1 ∨ s = 2)
  | .dnp, t, s => t = 1 ∧ 2 ≤ s ∧ s < 34
  | .d80, t, s | .d82, t, s => t = 38 ∧ s % 3 = 0 ∧ s ≤ 15

instance : (type : DxxType) → (t s : ℕ) → Decidable (IsBamSector type t s)
  | .d71, _, _ => inferInstanceAs (Decidable (_ ∧ _ ∨ _ ∧ _))
  | .d41, _, _ | .none, _, _ | .d81, _, _ | .dnp, _, _ | .d80, _, _ | .d82, _, _ =>
    inferInstanceAs (Decidable (_ ∧ _))

/-- Two BAM sectors of one image do not share a file offset. -/
theorem bamSector_injective {type : DxxType} {t s t' s' : ℕ} (h : IsBamSector type t s)
    (h' : IsBamSector type t' s') (heq : sectorLba type t s = sectorLba type t' s') :
    t = t' ∧ s = s' := by
  cases type <;> simp only [IsBamSector] at h h'
  case d71 =>
    rcases h with ⟨rfl, rfl⟩ | ⟨rfl, rfl⟩ <;> rcases h' with ⟨rfl, rfl⟩ | ⟨rfl, rfl⟩ <;>
      revert heq <;> decide
  all_goals
    obtain ⟨rfl, hs⟩ := h
    obtain ⟨rfl, hs'⟩ := h'
    refine ⟨rfl, ?_⟩
    simp [sectorLba, lbaSum] at heq
    omega

/-- The rounds of the loop over the BAM sectors leave a track of at most 50. -/
theorem d80Window_spec (fuel s track : ℕ) (h1 : 1 ≤ track) (h : track ≤ 50 * (fuel + 1)) :
    1 ≤ (d80Window fuel s track).2 ∧ (d80Window fuel s track).2 ≤ 50 ∧
      50 * (d80Window fuel s track).1 + 3 * (d80Window fuel s track).2 = 50 * s + 3 * track := by
  induction fuel generalizing s track with
  | zero => exact ⟨h1, by simpa [d80Window] using h, rfl⟩
  | succ fuel ih =>
    rw [d80Window]
    split
    · obtain ⟨hlow, hhigh, heq⟩ := ih (s + 3) (track - 50) (by omega) (by omega)
      exact ⟨hlow, hhigh, by omega⟩
    · exact ⟨h1, by simp; omega, rfl⟩

/-- The image type and the parameters of a partition are ones that `d64_mount` sets. -/
def Partition.Mounted (p : Partition) : Prop :=
  ∃ fsize name, imageFormat fsize name = some (p.imagetype, p.d64data)

/-- The last track of a mounted image. -/
theorem Partition.Mounted.lastTrack {p : Partition} (h : p.Mounted) :
    p.d64data.lastTrack ≤ match p.imagetype.type with
      | .d41 | .none => 35
      | .d71 => 70
      | .d81 => 80
      | .dnp => 255
      | .d80 | .d82 => 154 := by
  obtain ⟨fsize, name, h⟩ := h
  rcases imageFormat_cases h with hmem | ⟨-, hit, hp⟩
  · have hall : ∀ f ∈ fixedFormats, f.2.2.lastTrack ≤ match f.2.1.type with
      | .d41 | .none => 35
      | .d71 => 70
      | .d81 => 80
      | .dnp => 255
      | .d80 | .d82 => 154 := by decide
    exact hall _ hmem
  · rw [hit, hp]
    show fsize / 65536 % 256 ≤ 255
    omega

variable {p : Partition} {track sector : ℕ} {data : BamData}

/-- Every track number has its place in a BAM sector, also one that is not on the disk. -/
theorem isBamSector_bamPosition (type : DxxType) (h : track ≤ 255) (data : BamData) :
    IsBamSector type (bamPosition type track data).1 (bamPosition type track data).2.1 := by
  cases type <;> simp only [bamPosition, IsBamSector, true_and]
  case d71 => split_ifs <;> simp
  case d81 => split_ifs <;> simp
  case dnp => omega
  case d80 | d82 =>
    rcases Nat.eq_zero_or_pos track with rfl | h1
    · decide
    · have hw := d80Window_spec track 0 track h1 (by omega)
      omega

theorem Partition.Mounted.lastTrack_le (hm : p.Mounted) : p.d64data.lastTrack ≤ 255 := by
  have hlast := hm.lastTrack
  cases ht : p.imagetype.type <;> simp only [ht] at hlast <;> omega

theorem bamPosition_isBamSector (hm : p.Mounted) (h : track ≤ p.d64data.lastTrack) (data : BamData) :
    IsBamSector p.imagetype.type (bamPosition p.imagetype.type track data).1
      (bamPosition p.imagetype.type track data).2.1 :=
  isBamSector_bamPosition _ (h.trans hm.lastTrack_le) data

theorem sectorsPerTrack_le (type : DxxType) (track : ℕ) :
    sectorsPerTrack type track ≤ match type with
      | .d41 | .d71 | .none => 21
      | .d81 => 40
      | .dnp => 256
      | .d80 | .d82 => 29 := by
  cases type <;> simp only [sectorsPerTrack] <;> repeat' split
  all_goals decide

theorem sectorsPerTrack_le_256 (type : DxxType) (track : ℕ) : sectorsPerTrack type track ≤ 256 := by
  refine (sectorsPerTrack_le type track).trans ?_
  cases type <;> decide

/-- The bitmap byte of a sector lies inside its BAM sector. -/
theorem bamPosition_bitfield (hm : p.Mounted)
    (h : ValidTS p.imagetype.type p.d64data.lastTrack track sector) :
    (bamPosition p.imagetype.type track .bitfield).2.2 + sector / 8 < 256 := by
  have hlast := hm.lastTrack
  obtain ⟨h1, h2, h3⟩ := h
  have hspt := sectorsPerTrack_le p.imagetype.type track
  -- no position wraps around, so the remainder modulo 256 is the position itself
  cases ht : p.imagetype.type <;> simp only [ht] at hlast hspt h3 <;>
    simp only [bamPosition, BamData.skip]
  case dnp => omega
  case d41 | none =>
    rw [Nat.mod_eq_of_lt (by omega)]
    omega
  case d71 =>
    by_cases h35 : track > 35 <;> simp only [h35, true_and, false_and, ↓reduceIte]
    all_goals
      rw [Nat.mod_eq_of_lt (by omega)]
      omega
  case d81 =>
    split_ifs
    all_goals
      rw [Nat.mod_eq_of_lt (by omega)]
      omega
  case d80 | d82 =>
    have hw := d80Window_spec track 0 track h1 (by omega)
    rw [Nat.mod_eq_of_lt (by omega)]
    omega

/-- The counter of a track, and the 32 bytes that take its place on DNP images, lie inside their
BAM sector. -/
theorem bamPosition_freecount (type : DxxType) (track : ℕ) :
    (bamPosition type track .freecount).2.2 < 256 ∧
      (type = .dnp → (bamPosition type track .freecount).2.2 + 31 < 256) := by
  cases type <;> simp only [bamPosition, BamData.skip, reduceCtorEq, false_implies, and_true,
    and_false, ↓reduceIte]
  case dnp => omega
  case d71 => split_ifs <;> exact Nat.mod_lt _ (by decide)
  all_goals exact Nat.mod_lt _ (by decide)

/-! ### The view through the buffers -/

/-- `images` with the contents of `b` written back, if it must be flushed. -/
def patch (type : ℕ → DxxType) (b : BamBuffer) (images : ℕ → ℕ → UInt8) : ℕ → ℕ → UInt8 :=
  if b.mustflush then
    Function.update images b.part (Memory.write (images b.part)
      (sectorOffset (type b.part) b.track b.sector) 256 b.data)
  else images

namespace State

/-- The images as they are once both buffers have been flushed. -/
def view (s : State) : ℕ → ℕ → UInt8 :=
  patch s.type s.bamBuffer (match s.bamBuffer2 with
    | none => s.image
    | some b => patch s.type b s.image)

/-- No coming access to an image file fails. -/
def NoFault (s : State) : Prop := s.io = fun _ => .ok

theorem nextIo_eq {s : State} (h : s.NoFault) : s.nextIo = s := by
  rw [NoFault] at h
  cases s
  simp_all [nextIo]

end State

theorem imageRead_ok {s : State} (h : s.NoFault) (part offset bytes : ℕ) (buf : ℕ → UInt8) :
    imageRead s part offset bytes buf =
      (0, Memory.write buf 0 bytes fun i => s.image part (offset + i), s) := by
  have h0 : s.io 0 = .ok := congrFun h 0
  rw [imageRead, h0]
  simp only [State.nextIo_eq h]

theorem imageWrite_ok {s : State} (h : s.NoFault) (part offset bytes : ℕ) (data : ℕ → UInt8) :
    imageWrite s part offset bytes data =
      (0, s.setImage part (Memory.write (s.image part) offset bytes data)) := by
  have h0 : s.io 0 = .ok := congrFun h 0
  rw [imageWrite, h0]
  simp only [State.nextIo_eq h]

/-- A BAM buffer is empty, or it holds a BAM sector of some partition; while it need not be flushed
the image holds the same bytes. -/
structure BufferOk (s : State) (b : BamBuffer) : Prop where
  empty : b.part = 255 → b.mustflush = false
  part : b.part ≠ 255 → b.part < s.maxPart
  bam : b.part ≠ 255 → IsBamSector (s.type b.part) b.track b.sector
  clean : b.part ≠ 255 → b.mustflush = false → ∀ i < 256,
    b.data i = s.image b.part (s.offset b.part b.track b.sector + i)

theorem BufferOk.congr {s s' : State} {b : BamBuffer} (h : BufferOk s b)
    (hp : s'.partition = s.partition) (hm : s'.maxPart = s.maxPart) : BufferOk s' b := by
  have htype : s'.type = s.type := by unfold State.type; rw [hp]
  have himage : s'.image = s.image := by unfold State.image; rw [hp]
  refine ⟨h.empty, fun hv => hm ▸ h.part hv, fun hv => htype ▸ h.bam hv, ?_⟩
  unfold State.offset
  rw [htype, himage]
  exact h.clean

/-- Two buffers hold the same sector. -/
def SameTag (a b : BamBuffer) : Prop := a.part = b.part ∧ a.track = b.track ∧ a.sector = b.sector

/-- The invariant of the two BAM buffers, while no access to an image file fails. -/
structure Coherent (s : State) : Prop where
  noFault : s.NoFault
  maxPart : s.maxPart ≤ 255
  first : BufferOk s s.bamBuffer
  second : ∀ b, s.bamBuffer2 = some b → BufferOk s b
  apart : ∀ b, s.bamBuffer2 = some b → b.part ≠ 255 → ¬SameTag s.bamBuffer b

/-- The same images are mounted. -/
structure SameFormat (s s' : State) : Prop where
  imagetype : ∀ p, (s'.partition p).imagetype = (s.partition p).imagetype
  d64data : ∀ p, (s'.partition p).d64data = (s.partition p).d64data
  maxPart : s'.maxPart = s.maxPart

namespace SameFormat

variable {s s' s'' : State}

theorem trans (h : SameFormat s s') (h' : SameFormat s' s'') : SameFormat s s'' :=
  ⟨fun p => (h'.imagetype p).trans (h.imagetype p), fun p => (h'.d64data p).trans (h.d64data p),
    h'.maxPart.trans h.maxPart⟩

theorem type (h : SameFormat s s') : s'.type = s.type := by
  funext p
  rw [State.type, h.imagetype]
  rfl

theorem offset (h : SameFormat s s') : s'.offset = s.offset := by
  funext p t q
  rw [State.offset, h.type]
  rfl

theorem lastTrack (h : SameFormat s s') : s'.lastTrack = s.lastTrack := by
  funext p
  rw [State.lastTrack, h.d64data]
  rfl

theorem mounted (h : SameFormat s s') (p : ℕ) :
    (s'.partition p).Mounted ↔ (s.partition p).Mounted := by
  simp only [Partition.Mounted, h.imagetype, h.d64data]

end SameFormat

/-- `s'` differs from `s` only in the contents of the images, the two BAM buffers, the error message
and the buffers that are left. -/
structure SameMeta (s s' : State) : Prop extends SameFormat s s' where
  writable : ∀ p, (s'.partition p).writable = (s.partition p).writable
  errorcache : s'.errorcache = s.errorcache
  scratch : s'.scratch = s.scratch
  io : s'.io = s.io

namespace SameMeta

variable {s s' s'' : State}

theorem refl (s : State) : SameMeta s s :=
  ⟨⟨fun _ => rfl, fun _ => rfl, rfl⟩, fun _ => rfl, rfl, rfl, rfl⟩

theorem trans (h : SameMeta s s') (h' : SameMeta s' s'') : SameMeta s s'' :=
  ⟨h.toSameFormat.trans h'.toSameFormat, fun p => (h'.writable p).trans (h.writable p),
    h'.errorcache.trans h.errorcache, h'.scratch.trans h.scratch, h'.io.trans h.io⟩

/-- Only the variables that `SameMeta` compares matter. -/
theorem congr (h : SameMeta s s') (hp : s''.partition = s'.partition)
    (hm : s''.maxPart = s'.maxPart) (he : s''.errorcache = s'.errorcache)
    (hs : s''.scratch = s'.scratch) (hio : s''.io = s'.io) : SameMeta s s'' :=
  h.trans ⟨⟨fun p => by rw [hp], fun p => by rw [hp], hm⟩, fun p => by rw [hp], he, hs, hio⟩

theorem noFault (h : SameMeta s s') (hs : s.NoFault) : s'.NoFault := h.io.trans hs

end SameMeta

/-- In addition, the images are the same as seen through the buffers. -/
structure Keeps (s s' : State) : Prop extends SameMeta s s' where
  view : s'.view = s.view

theorem Keeps.refl (s : State) : Keeps s s := ⟨SameMeta.refl s, rfl⟩

theorem Keeps.trans {s s' s'' : State} (h : Keeps s s') (h' : Keeps s' s'') : Keeps s s'' :=
  ⟨h.toSameMeta.trans h'.toSameMeta, h'.view.trans h.view⟩

theorem patch_clean {type : ℕ → DxxType} {b : BamBuffer} {images : ℕ → ℕ → UInt8}
    (h : b.mustflush = false) : patch type b images = images := by
  simp [patch, h]

/-- The blocks of two buffers that hold different sectors of one image do not overlap. -/
theorem BufferOk.disjoint {s : State} {a b : BamBuffer} (ha : BufferOk s a) (hb : BufferOk s b)
    (ha' : a.part ≠ 255) (hpart : a.part = b.part) (h : ¬SameTag a b) :
    s.offset a.part a.track a.sector + 256 ≤ s.offset b.part b.track b.sector ∨
      s.offset b.part b.track b.sector + 256 ≤ s.offset a.part a.track a.sector := by
  have hbama := ha.bam ha'
  have hbamb := hb.bam (hpart ▸ ha')
  rw [← hpart] at hbamb
  have hne : sectorLba (s.type a.part) a.track a.sector ≠
      sectorLba (s.type a.part) b.track b.sector := fun heq =>
    h ⟨hpart, bamSector_injective hbama hbamb heq⟩
  simp only [State.offset, sectorOffset, ← hpart]
  omega

/-- The contents of two buffers that hold different sectors can be written back in any order. -/
theorem patch_comm {s : State} {a b : BamBuffer} (ha : BufferOk s a) (hb : BufferOk s b)
    (h : b.part ≠ 255 → ¬SameTag a b) (images : ℕ → ℕ → UInt8) :
    patch s.type a (patch s.type b images) = patch s.type b (patch s.type a images) := by
  by_cases ham : a.mustflush = true
  · by_cases hbm : b.mustflush = true
    · have ha' : a.part ≠ 255 := fun h255 => by simp [ha.empty h255] at ham
      have hb' : b.part ≠ 255 := fun h255 => by simp [hb.empty h255] at hbm
      simp only [patch, ham, hbm, if_true]
      by_cases hpart : a.part = b.part
      · have hdis := ha.disjoint hb ha' hpart (h hb')
        simp only [State.offset, ← hpart] at hdis
        simp only [← hpart, Function.update_self, Function.update_idem]
        rw [Memory.write_comm (hdis.symm)]
      · rw [Function.update_of_ne hpart, Function.update_of_ne (Ne.symm hpart),
          Function.update_comm hpart]
    · rw [patch_clean (b := b) (by simpa using hbm), patch_clean (b := b) (by simpa using hbm)]
  · rw [patch_clean (b := a) (by simpa using ham), patch_clean (b := a) (by simpa using ham)]

/-! ### The steps of `move_bam_window` -/

theorem State.image_setImage (s : State) (part : ℕ) (image : ℕ → UInt8) :
    (s.setImage part image).image = Function.update s.image part image := by
  funext p
  by_cases hp : p = part
  · subst hp; simp [State.image, State.setImage]
  · simp [State.image, State.setImage, hp]

theorem State.setImage_sameMeta (s : State) (part : ℕ) (image : ℕ → UInt8) :
    SameMeta s (s.setImage part image) := by
  refine ⟨⟨fun p => ?_, fun p => ?_, rfl⟩, fun p => ?_, rfl, rfl, rfl⟩ <;>
    simp only [State.setImage] <;> split <;> rfl

/-- A flushed buffer is clean, and the images are patched by its contents. -/
theorem bamBufferFlush_ok {s : State} {b : BamBuffer} (hs : Coherent s) (hb : BufferOk s b) :
    ∃ s', bamBufferFlush s b = (0, { b with mustflush := false }, s') ∧ SameMeta s s' ∧
      s'.image = patch s.type b s.image ∧
      s'.bamBuffer = s.bamBuffer ∧ s'.bamBuffer2 = s.bamBuffer2 := by
  by_cases hm : b.mustflush = true
  · have hvalid : b.part ≠ 255 := fun h => by simp [hb.empty h] at hm
    have hcond : (b.mustflush && decide (b.part < s.maxPart)) = true := by
      simp [hm, hb.part hvalid]
    refine ⟨_, by rw [bamBufferFlush, if_pos hcond, imageWrite_ok hs.noFault],
      s.setImage_sameMeta _ _, ?_, rfl, rfl⟩
    simp only [patch, hm, if_true, State.image_setImage, State.offset]
  · have hm' : b.mustflush = false := by simpa using hm
    refine ⟨s, ?_, SameMeta.refl s, (patch_clean hm').symm, rfl, rfl⟩
    rw [bamBufferFlush, if_neg (by simp [hm'])]
    cases b
    simp_all

/-- Writing back one buffer leaves the sector of another one alone. -/
theorem BufferOk.patch_other {s : State} {a b : BamBuffer} (ha : BufferOk s a) (hb : BufferOk s b)
    (hapart : b.part ≠ 255 → ¬SameTag a b) (hvalid : a.part ≠ 255) (images : ℕ → ℕ → UInt8) {i : ℕ}
    (hi : i < 256) :
    patch s.type b images a.part (s.offset a.part a.track a.sector + i) =
      images a.part (s.offset a.part a.track a.sector + i) := by
  by_cases hbm : b.mustflush = true
  · have hbv : b.part ≠ 255 := fun h => by simp [hb.empty h] at hbm
    simp only [patch, hbm, if_true]
    by_cases hpart : a.part = b.part
    · have hdis := ha.disjoint hb hvalid hpart (hapart hbv)
      simp only [State.offset, ← hpart] at hdis ⊢
      rw [Function.update_self, Memory.write_outside (by omega)]
    · rw [Function.update_of_ne hpart]
  · rw [patch_clean (by simpa using hbm)]

/-- A buffer other than the one that is flushed keeps its invariant. -/
theorem BufferOk.of_patch {s s' : State} {a b : BamBuffer} (ha : BufferOk s a) (hb : BufferOk s b)
    (hapart : a.part ≠ 255 → b.part ≠ 255 → ¬SameTag a b) (hmeta : SameMeta s s')
    (himage : s'.image = patch s.type b s.image) : BufferOk s' a := by
  refine ⟨ha.empty, fun h => hmeta.maxPart ▸ ha.part h, fun h => hmeta.type ▸ ha.bam h,
    fun h hm i hi => ?_⟩
  rw [ha.clean h hm i hi, hmeta.offset, himage, ha.patch_other hb (hapart h) h _ hi]

/-- The flushed buffer holds what the image holds. -/
theorem BufferOk.flushed {s s' : State} {b : BamBuffer} (hb : BufferOk s b) (hmeta : SameMeta s s')
    (himage : s'.image = patch s.type b s.image) : BufferOk s' { b with mustflush := false } := by
  refine ⟨fun _ => rfl, fun h => hmeta.maxPart ▸ hb.part h, fun h => hmeta.type ▸ hb.bam h,
    fun h _ i hi => ?_⟩
  simp only [hmeta.offset, himage]
  by_cases hm : b.mustflush = true
  · simp only [patch, hm, if_true, Function.update_self, State.offset]
    rw [Memory.write_inside hi]
  · rw [patch_clean (by simpa using hm)]
    exact hb.clean h (by simpa using hm) i hi

theorem SameTag.symm {a b : BamBuffer} (h : SameTag a b) : SameTag b a :=
  ⟨h.1.symm, h.2.1.symm, h.2.2.symm⟩

theorem flushBam_ok {s : State} (hs : Coherent s) :
    ∃ s', flushBam s = (0, s') ∧ Coherent s' ∧ Keeps s s' ∧
      s'.bamBuffer = { s.bamBuffer with mustflush := false } ∧ s'.bamBuffer2 = s.bamBuffer2 := by
  obtain ⟨s', hf, hmeta, himage, -, hb2⟩ := bamBufferFlush_ok hs hs.first
  refine ⟨{ s' with bamBuffer := { s.bamBuffer with mustflush := false } }, ?_, ?_, ?_, rfl, hb2⟩
  · simp only [flushBam, hf]
  · refine ⟨hmeta.noFault hs.noFault, hmeta.maxPart.symm ▸ hs.maxPart,
      (hs.first.flushed hmeta himage).congr rfl rfl, fun b hb => ?_, fun b hb => hs.apart b (hb2 ▸ hb)⟩
    exact (BufferOk.of_patch (hs.second b (hb2 ▸ hb)) hs.first
      (fun hbv _ htag => hs.apart b (hb2 ▸ hb) hbv htag.symm) hmeta himage).congr rfl rfl
  · refine ⟨hmeta.congr rfl rfl rfl rfl rfl, ?_⟩
    show patch s'.type _ _ = _
    rw [patch_clean rfl, State.view]
    simp only [hb2]
    cases hsecond : s.bamBuffer2 with
    | none => exact himage
    | some b =>
      show patch s'.type b s'.image = _
      rw [himage, hmeta.type, patch_comm hs.first (hs.second b hsecond) (hs.apart b hsecond)]

theorem flushBam2_ok {s : State} (hs : Coherent s) :
    ∃ s', flushBam2 s = (0, s') ∧ Coherent s' ∧ Keeps s s' ∧ s'.bamBuffer = s.bamBuffer ∧
      s'.bamBuffer2 = s.bamBuffer2.map fun b => { b with mustflush := false } := by
  unfold flushBam2
  cases hsecond : s.bamBuffer2 with
  | none => exact ⟨s, rfl, hs, Keeps.refl s, rfl, hsecond⟩
  | some b =>
    have hb := hs.second b hsecond
    obtain ⟨s', hf, hmeta, himage, hb1, -⟩ := bamBufferFlush_ok hs hb
    refine ⟨{ s' with bamBuffer2 := some { b with mustflush := false } }, by simp only [hf], ?_,
      ⟨hmeta.congr rfl rfl rfl rfl rfl, ?_⟩, hb1, rfl⟩
    · refine ⟨hmeta.noFault hs.noFault, hmeta.maxPart.symm ▸ hs.maxPart, ?_, ?_, ?_⟩
      · show BufferOk _ s'.bamBuffer
        rw [hb1]
        exact (BufferOk.of_patch hs.first hb (fun _ => hs.apart b hsecond) hmeta himage).congr
          rfl rfl
      · rintro _ ⟨⟩
        exact (hb.flushed hmeta himage).congr rfl rfl
      · rintro _ ⟨⟩ hvalid htag
        have htag : SameTag s'.bamBuffer b := htag
        rw [hb1] at htag
        exact hs.apart b hsecond hvalid htag
    · show patch s'.type s'.bamBuffer (patch s'.type { b with mustflush := false } s'.image) = _
      rw [patch_clean (b := { b with mustflush := false }) rfl, himage, hb1, hmeta.type]
      simp only [State.view, hsecond]

/-- After `d64_bam_commit` no buffer must be flushed, and the image files hold what was seen through
the buffers. -/
theorem d64BamCommit_ok {s : State} (hs : Coherent s) :
    ∃ s', d64BamCommit s = (0, s') ∧ Coherent s' ∧ Keeps s s' ∧ s'.image = s.view ∧
      s'.bamBuffer.mustflush = false ∧ ∀ b, s'.bamBuffer2 = some b → b.mustflush = false := by
  obtain ⟨s1, hf, hco, hkeep, hfirst, -⟩ := flushBam_ok hs
  obtain ⟨s2, hf', hco', hkeep', hfirst', hsecond'⟩ := flushBam2_ok hco
  have hclean : s2.bamBuffer.mustflush = false := by rw [hfirst', hfirst]
  have hclean' : ∀ b, s2.bamBuffer2 = some b → b.mustflush = false := by
    intro b hb
    rw [hsecond', Option.map_eq_some_iff] at hb
    obtain ⟨c, -, rfl⟩ := hb
    rfl
  refine ⟨s2, by rw [d64BamCommit, hf]; simp only [hf'], hco', hkeep.trans hkeep', ?_, hclean,
    hclean'⟩
  rw [← (hkeep.trans hkeep').view, State.view, patch_clean hclean]
  cases hb : s2.bamBuffer2 with
  | none => rfl
  | some b => exact (patch_clean (hclean' b hb)).symm

theorem bamBufferSwap_ok {s : State} (hs : Coherent s) :
    Coherent (bamBufferSwap s) ∧ Keeps s (bamBufferSwap s) := by
  cases hsecond : s.bamBuffer2 with
  | none => simpa [bamBufferSwap, hsecond] using ⟨hs, Keeps.refl s⟩
  | some b =>
    have hswap : bamBufferSwap s = { s with bamBuffer := b, bamBuffer2 := some s.bamBuffer } := by
      rw [bamBufferSwap, hsecond]
    rw [hswap]
    have hb := hs.second b hsecond
    have hapart := hs.apart b hsecond
    refine ⟨⟨hs.noFault, hs.maxPart, hb.congr rfl rfl, ?_, ?_⟩,
      (SameMeta.refl s).congr rfl rfl rfl rfl rfl, ?_⟩
    · rintro _ ⟨⟩
      exact hs.first.congr rfl rfl
    · rintro _ ⟨⟩ hvalid htag
      exact hapart (htag.1 ▸ hvalid) htag.symm
    · show patch s.type b (patch s.type s.bamBuffer s.image) = _
      simp only [State.view, hsecond]
      exact (patch_comm hs.first hb hapart _).symm

/-- An empty second buffer is invisible. -/
theorem bamBufferAlloc2_ok {s : State} (hs : Coherent s) (hsecond : s.bamBuffer2 = none) :
    Coherent (bamBufferAlloc2 s).2 ∧ Keeps s (bamBufferAlloc2 s).2 := by
  unfold bamBufferAlloc2
  cases hfree : s.sysFree 0 with
  | none =>
    refine ⟨⟨hs.noFault, hs.maxPart, hs.first.congr rfl rfl, ?_, ?_⟩,
      (SameMeta.refl s).congr rfl rfl rfl rfl rfl, ?_⟩
    · rintro _ ⟨⟩
    · rintro _ ⟨⟩
    · simp only [State.view, hsecond]
      rfl
  | some free =>
    refine ⟨⟨hs.noFault, hs.maxPart, hs.first.congr rfl rfl, ?_, ?_⟩,
      (SameMeta.refl s).congr rfl rfl rfl rfl rfl, ?_⟩
    · rintro _ ⟨⟩
      exact ⟨fun _ => rfl, fun h => absurd rfl h, fun h => absurd rfl h, fun h => absurd rfl h⟩
    · rintro _ ⟨⟩ hvalid
      exact absurd rfl hvalid
    · simp only [State.view, hsecond]
      rw [patch_clean (b := ⟨255, 0, 0, false, free.1, free.2⟩) rfl]
      rfl

theorem setError_ok {s : State} (hs : Coherent s) (code track sector : ℕ) :
    Coherent (s.setErrorTs code track sector) ∧ Keeps s (s.setErrorTs code track sector) :=
  ⟨⟨hs.noFault, hs.maxPart, hs.first.congr rfl rfl, fun b hb => (hs.second b hb).congr rfl rfl,
    hs.apart⟩, (SameMeta.refl s).congr rfl rfl rfl rfl rfl, rfl⟩

/-- The choice of the target buffer changes nothing that can be seen. -/
theorem chooseBam_ok {s : State} (hs : Coherent s) :
    Coherent (chooseBam s) ∧ Keeps s (chooseBam s) := by
  unfold chooseBam
  cases hsecond : s.bamBuffer2 with
  | some b => exact bamBufferSwap_ok hs
  | none =>
    simp only
    split_ifs with hvalid hfail
    · obtain ⟨hco, hkeep⟩ := bamBufferAlloc2_ok hs hsecond
      obtain ⟨hco', hkeep'⟩ := setError_ok hco ERROR_OK 0 0
      exact ⟨hco', hkeep.trans hkeep'⟩
    · obtain ⟨hco, hkeep⟩ := bamBufferAlloc2_ok hs hsecond
      obtain ⟨hco', hkeep'⟩ := bamBufferSwap_ok hco
      exact ⟨hco', hkeep.trans hkeep'⟩
    · exact ⟨hs, Keeps.refl s⟩

/-- The buffer that is not the target is the one that was used last. -/
theorem chooseBam_second {s : State} {b : BamBuffer} (h : (chooseBam s).bamBuffer2 = some b) :
    b = s.bamBuffer := by
  unfold chooseBam at h
  cases hsecond : s.bamBuffer2 with
  | some c =>
    simp only [hsecond, bamBufferSwap, Option.some.injEq] at h
    exact h.symm
  | none =>
    simp only [hsecond] at h
    unfold bamBufferAlloc2 at h
    split_ifs at h with hvalid hfail
    all_goals cases hfree : s.sysFree 0 with
      | none => simp_all [State.setError, State.setErrorTs]
      | some free => simp_all [bamBufferSwap]

/-- `bam_buffer` holds the given sector. -/
structure Holds (s : State) (part track sector : ℕ) : Prop where
  part : s.bamBuffer.part = part
  track : s.bamBuffer.track = track
  sector : s.bamBuffer.sector = sector

theorem bamBufferMatch_iff {b : BamBuffer} {part track sector : ℕ} :
    bamBufferMatch b part track sector = true ↔
      b.part = part ∧ b.track = track ∧ b.sector = sector := by
  simp [bamBufferMatch, and_assoc]

theorem loadBam_ok {s : State} (hs : Coherent s) {part track sector : ℕ} (hpart : part < s.maxPart)
    (hbam : IsBamSector (s.type part) track sector)
    (hother : ∀ b, s.bamBuffer2 = some b → ¬bamBufferMatch b part track sector = true) :
    ∃ s', loadBam s part track sector = (0, s') ∧ Coherent s' ∧ Keeps s s' ∧
      Holds s' part track sector := by
  obtain ⟨s1, hf, hco, hkeep, hb1, hb2⟩ := flushBam_ok hs
  refine ⟨{ s1 with bamBuffer := { s1.bamBuffer with
      part, track, sector,
      data := Memory.write s1.bamBuffer.data 0 256 fun i =>
        s1.image part (s1.offset part track sector + i) } }, ?_, ?_, ?_, ⟨rfl, rfl, rfl⟩⟩
  · simp only [loadBam, hf, imageRead_ok hco.noFault, ne_eq, not_true_eq_false, if_false]
  · refine ⟨hco.noFault, hco.maxPart, ⟨fun h => ?_, fun _ => ?_, fun _ => ?_, ?_⟩,
      fun b hb => (hco.second b hb).congr rfl rfl, fun b hb hvalid htag => ?_⟩
    · simp [hb1]
    · exact hkeep.maxPart.symm ▸ hpart
    · exact hkeep.type.symm ▸ hbam
    · intro _ _ i hi
      have hread := @Memory.write_inside s1.bamBuffer.data 0 256 i (fun i =>
        s1.image part (s1.offset part track sector + i)) hi
      rwa [Nat.zero_add] at hread
    · exact hother b (hb2 ▸ hb) (bamBufferMatch_iff.mpr
        ⟨htag.1.symm, htag.2.1.symm, htag.2.2.symm⟩)
  · refine hkeep.trans ⟨(SameMeta.refl s1).congr rfl rfl rfl rfl rfl, ?_⟩
    have hclean : s1.bamBuffer.mustflush = false := by rw [hb1]
    unfold State.view
    rw [patch_clean (b := s1.bamBuffer) hclean, patch_clean (by exact hclean)]
    rfl

/-- While no access fails, `move_bam_window` succeeds, changes nothing that can be seen, and leaves
the requested sector in `bam_buffer`. -/
theorem moveBamWindow_ok {s : State} (hs : Coherent s) {part track : ℕ} (hpart : part < s.maxPart)
    (htrack : track ≤ 255) (data : BamData) :
    ∃ s', moveBamWindow s part track data = (0, (bamPosition (s.type part) track data).2.2, s') ∧
      Coherent s' ∧ Keeps s s' ∧
      Holds s' part (bamPosition (s.type part) track data).1
        (bamPosition (s.type part) track data).2.1 := by
  have hbam := isBamSector_bamPosition (s.type part) htrack data
  unfold moveBamWindow
  simp only
  split_ifs with hmatch hmatch'
  · obtain ⟨hp, ht, hse⟩ := bamBufferMatch_iff.mp hmatch
    exact ⟨s, rfl, hs, Keeps.refl s, hp, ht, hse⟩
  · obtain ⟨hco, hkeep⟩ := chooseBam_ok hs
    obtain ⟨hp, ht, hse⟩ := bamBufferMatch_iff.mp hmatch'
    exact ⟨_, rfl, hco, hkeep, hp, ht, hse⟩
  · obtain ⟨hco, hkeep⟩ := chooseBam_ok hs
    obtain ⟨s', hl, hco', hkeep', hholds⟩ := loadBam_ok hco (hkeep.maxPart.symm ▸ hpart)
      (by rw [hkeep.type]; exact hbam) fun b hb => by rw [chooseBam_second hb]; exact hmatch
    exact ⟨s', by rw [hl], hco', hkeep.trans hkeep', hholds⟩

end NoDiskEmu.Dxx
