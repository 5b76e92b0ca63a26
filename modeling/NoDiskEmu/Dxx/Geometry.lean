import NoDiskEmu.Library.Tiling

/-! The geometry of Dxx disk images: the image types, their parameters, the numbering of sectors in
the image file, and the sizes that `d64_mount` accepts. -/

namespace NoDiskEmu.Dxx

open Library

/-- The image types, as `imagetype & D64_TYPE_MASK` distinguishes them. -/
inductive DxxType
  | none | dnp | d41 | d71 | d81 | d80 | d82
  deriving DecidableEq, Repr

/-- `imagetype`: the type and the flag `D64_HAS_ERRORINFO`. -/
structure ImageType where
  type : DxxType
  errorInfo : Bool
  deriving DecidableEq, Repr

/-- `struct param_s`, without the format function. -/
structure Param where
  dirTrack : ℕ
  dirStartSector : ℕ
  lastTrack : ℕ
  labelOffset : ℕ
  idOffset : ℕ
  fileInterleave : ℕ
  dirInterleave : ℕ
  deriving DecidableEq, Repr

def d41param : Param := ⟨18, 1, 35, 0x90, 0xa2, 10, 3⟩
def d71param : Param := ⟨18, 1, 70, 0x90, 0xa2, 6, 3⟩
def d81param : Param := ⟨40, 3, 80, 0x04, 0x16, 1, 1⟩
def dnpparam : Param := ⟨1, 1, 0, 4, 22, 1, 1⟩
def d80param : Param := ⟨39, 1, 77, 6, 0x18, 5, 3⟩
def d82param : Param := ⟨39, 1, 154, 6, 0x18, 5, 3⟩

/-- The sum that `sector_lba` returns, for a track counted from 0, before it is cut to 16 bits. -/
def lbaSum (type : DxxType) (track sector : ℕ) : ℕ :=
  match type with
  | .d81 => track * 40 + sector
  | .dnp => track * 256 + sector
  | .d80 | .d82 =>
    let offset := if track ≥ 78 then 2083 else 0
    let track := if track ≥ 78 then track - 77 else track
    if track < 39 then track * 29 + sector + offset
    else if track < 53 then 39 * 29 + (track - 39) * 27 + sector + offset
    else if track < 64 then 39 * 29 + 14 * 27 + (track - 53) * 25 + sector + offset
    else 39 * 29 + 14 * 27 + 11 * 25 + (track - 64) + sector + offset
  | .d41 | .d71 | .none =>
    let offset := if track ≥ 35 then 683 else 0
    let track := if track ≥ 35 then track - 35 else track
    if track < 17 then track * 21 + sector + offset
    else if track < 24 then 17 * 21 + (track - 17) * 19 + sector + offset
    else if track < 30 then 17 * 21 + 7 * 19 + (track - 24) * 18 + sector + offset
    else 17 * 21 + 7 * 19 + 6 * 18 + (track - 30) * 17 + sector + offset

/-- `sector_lba`: the number of a sector in the image file.  Tracks are counted from 1 in a byte,
and the result is a 16-bit number. -/
def sectorLba (type : DxxType) (track sector : ℕ) : ℕ :=
  lbaSum type ((track + 255) % 256) sector % 65536

/-- `sector_offset`: the position of a sector in the image file. -/
def sectorOffset (type : DxxType) (track sector : ℕ) : ℕ := 256 * sectorLba type track sector

/-- `sectors_per_track`. -/
def sectorsPerTrack (type : DxxType) (track : ℕ) : ℕ :=
  match type with
  | .d81 => 40
  | .dnp => 256
  | .d80 | .d82 =>
    let track := if track > 77 then track - 77 else track
    if track < 40 then 29 else if track < 54 then 27 else if track < 65 then 25 else 23
  | .d41 | .d71 | .none =>
    let track := if track > 35 then track - 35 else track
    if track < 18 then 21 else if track < 25 then 19 else if track < 31 then 18 else 17

/-- The suffix of a file name from its last full stop on, as `ustrrchr(name, '.')` finds it. -/
def lastDot (name : List UInt8) : Option (List UInt8) :=
  match name with
  | [] => none
  | c :: rest => (lastDot rest).or (if c = 46 then some (c :: rest) else none)

/-- The test of `d64_mount` for 40-track D64 images: the third and fourth character of the suffix
are `6` and `4`. -/
def isD64Name (name : List UInt8) : Bool :=
  match lastDot name with
  | some (_ :: _ :: c :: d :: _) => c = 54 && d = 52
  | _ => false

/-- The cases of the switch in `d64_mount`: the sizes of the fixed formats. -/
def fixedFormats : List (ℕ × ImageType × Param) :=
  [(174848, ⟨.d41, false⟩, d41param), (175531, ⟨.d41, true⟩, d41param),
   (349696, ⟨.d71, false⟩, d71param), (351062, ⟨.d71, true⟩, d71param),
   (819200, ⟨.d81, false⟩, d81param), (822400, ⟨.d81, true⟩, d81param),
   (533248, ⟨.d80, false⟩, d80param), (535331, ⟨.d80, true⟩, d80param),
   (1066496, ⟨.d82, false⟩, d82param), (1070662, ⟨.d82, true⟩, d82param)]

/-- The part of `d64_mount` that reads the image type and the parameters off the size of the image
file; `none` stands for `ERROR_IMAGE_INVALID`.  The last track of a DNP image is stored in a
byte. -/
def imageFormat (fsize : ℕ) (name : List UInt8) : Option (ImageType × Param) :=
  match fixedFormats.lookup fsize with
  | some format => some format
  | none =>
    if fsize % 65536 ≠ 0 then none
    else if fsize = 196608 ∧ isD64Name name then none
    else some (⟨.dnp, false⟩, { dnpparam with lastTrack := fsize / 65536 % 256 })

/-- `D41_ERROR_OFFSET` and its siblings: where the error-info block of an image begins. -/
def errorOffset : DxxType → ℕ
  | .d41 => 174848
  | .d71 => 349696
  | .d81 => 819200
  | .d80 => 533248
  | .d82 => 1066496
  | .none | .dnp => 0

/-- The bytes of an image file before its error-info block. -/
def dataSize (fsize : ℕ) (it : ImageType) : ℕ :=
  if it.errorInfo then errorOffset it.type else fsize

/-- The track and the sector lie on the disk, as `checked_read` tests it. -/
def ValidTS (type : DxxType) (last track sector : ℕ) : Prop :=
  1 ≤ track ∧ track ≤ last ∧ sector < sectorsPerTrack type track

instance (type : DxxType) (last track sector : ℕ) : Decidable (ValidTS type last track sector) :=
  inferInstanceAs (Decidable (_ ∧ _ ∧ _))

/-- The sectors of an image are numbered track by track, and fill `size` bytes without gaps or
overlaps. -/
structure Tiles (type : DxxType) (last size : ℕ) : Prop where
  lba : ∀ t s, ValidTS type last t s →
    sectorLba type t s = (∑ u ∈ Finset.Ico 1 t, sectorsPerTrack type u) + s
  injective : ∀ t s t' s', ValidTS type last t s → ValidTS type last t' s' →
    sectorOffset type t s = sectorOffset type t' s' → t = t' ∧ s = s'
  inside : ∀ t s, ValidTS type last t s → sectorOffset type t s + 256 ≤ size
  exact : 256 * ∑ u ∈ Finset.Icc 1 last, sectorsPerTrack type u = size

theorem lbaSum_add (type : DxxType) (t s : ℕ) : lbaSum type t s = lbaSum type t 0 + s := by
  cases type <;> simp only [lbaSum]
  case dnp | d81 => omega
  all_goals split_ifs <;> omega

theorem sectorLba_eq {type : DxxType} {t s : ℕ} (ht : 1 ≤ t) (hlast : t ≤ 255) :
    sectorLba type t s = (lbaSum type (t - 1) 0 + s) % 65536 := by
  rw [sectorLba, show (t + 255) % 256 = t - 1 by omega, lbaSum_add]

/-- An image tiles its data area when `sector_lba` advances by each track's sectors from one track
to the next. -/
theorem tiles_of_succ {type : DxxType} {last : ℕ} (hlast : last ≤ 255)
    (hfirst : lbaSum type 0 0 = 0)
    (hsucc : ∀ t < last, lbaSum type (t + 1) 0 = lbaSum type t 0 + sectorsPerTrack type (t + 1))
    (hsize : Tiling.start (sectorsPerTrack type) (last + 1) ≤ 65536) :
    Tiles type last (256 * Tiling.start (sectorsPerTrack type) (last + 1)) := by
  have hstart : ∀ t, 1 ≤ t → t ≤ last →
      lbaSum type (t - 1) 0 = Tiling.start (sectorsPerTrack type) t :=
    @Tiling.eq_start_of_succ _ (fun t => lbaSum type (t - 1) 0) last hfirst fun t ht hlt => by
      obtain ⟨u, rfl⟩ : ∃ u, t = u + 1 := ⟨t - 1, by omega⟩
      exact hsucc u (by omega)
  have hlba : ∀ t s, ValidTS type last t s →
      sectorLba type t s = Tiling.start (sectorsPerTrack type) t + s := by
    rintro t s ⟨ht, htl, hs⟩
    have hlt := Tiling.start_add_lt ht (show t < last + 1 by omega) hs
    rw [sectorLba_eq ht (by omega), hstart t ht htl, Nat.mod_eq_of_lt (by omega)]
  refine ⟨hlba, ?_, ?_, ?_⟩
  · rintro t s t' s' h h' heq
    have heq : sectorLba type t s = sectorLba type t' s' := by
      simp only [sectorOffset] at heq
      omega
    rw [hlba t s h, hlba t' s' h'] at heq
    exact Tiling.cell_injective h.1 h'.1 h.2.2 h'.2.2 heq
  · rintro t s h
    have hlt := Tiling.start_add_lt h.1 (show t < last + 1 by have := h.2.1; omega) h.2.2
    rw [sectorOffset, hlba t s h]
    omega
  · rw [Tiling.start, Finset.Ico_add_one_right_eq_Icc]

theorem tiles_d41 : Tiles .d41 35 174848 :=
  tiles_of_succ (by decide) (by decide) (by decide) (by decide)

theorem tiles_d71 : Tiles .d71 70 349696 :=
  tiles_of_succ (by decide) (by decide) (by decide) (by decide)

theorem tiles_d81 : Tiles .d81 80 819200 :=
  tiles_of_succ (by decide) (by decide) (by decide) (by decide)

theorem start_dnp (n : ℕ) : Tiling.start (sectorsPerTrack .dnp) (n + 1) = 256 * n := by
  rw [Tiling.start]
  simp only [sectorsPerTrack, Finset.sum_const, Nat.card_Ico, Nat.nsmul_eq_mul]
  omega

theorem tiles_dnp {n : ℕ} (hn : n ≤ 255) : Tiles .dnp n (65536 * n) := by
  have h := @tiles_of_succ .dnp n hn rfl
    (fun t _ => by simp [lbaSum, sectorsPerTrack]; omega) (by rw [start_dnp]; omega)
  rwa [start_dnp, ← Nat.mul_assoc] at h

/-- Track 66 of a D80 image begins one sector after track 65, which has 23 sectors. -/
theorem not_tiles_d80 (size : ℕ) : ¬Tiles .d80 77 size := by
  intro h
  exact absurd (h.lba 66 0 (by decide)) (by decide)

theorem not_tiles_d82 (size : ℕ) : ¬Tiles .d82 154 size := by
  intro h
  exact absurd (h.lba 66 0 (by decide)) (by decide)

/-- From 256 tracks on, the last track of a DNP image does not fit its byte. -/
theorem not_tiles_dnp {n : ℕ} (hn : 256 ≤ n) : ¬Tiles .dnp (n % 256) (65536 * n) := by
  intro h
  have hexact := h.exact
  rw [← Finset.Ico_add_one_right_eq_Icc, ← Tiling.start, start_dnp] at hexact
  omega

/-- The formats that `d64_mount` accepts. -/
theorem imageFormat_cases {fsize : ℕ} {name : List UInt8} {it : ImageType} {p : Param}
    (h : imageFormat fsize name = some (it, p)) :
    (fsize, it, p) ∈ fixedFormats ∨
      (fsize % 65536 = 0 ∧ it = ⟨.dnp, false⟩ ∧
        p = { dnpparam with lastTrack := fsize / 65536 % 256 }) := by
  unfold imageFormat at h
  split at h
  next format hlookup =>
    cases h
    rw [List.lookup_eq_some_iff] at hlookup
    obtain ⟨l, l', hl, -⟩ := hlookup
    exact .inl (hl ▸ by simp)
  next =>
    split_ifs at h with hmod
    cases h
    exact .inr ⟨by omega, rfl, rfl⟩

/-- The fixed formats tile their data areas, the D80 and D82 formats excepted. -/
theorem fixedFormats_tiles :
    ∀ f ∈ fixedFormats, (Tiles f.2.1.type f.2.2.lastTrack (dataSize f.1 f.2.1) ↔
      f.1 ∉ [533248, 535331, 1066496, 1070662]) := by
  simp only [fixedFormats, List.forall_mem_cons, dataSize, errorOffset, d41param, d71param,
    d81param, d80param, d82param, ↓reduceIte]
  simp [tiles_d41, tiles_d71, tiles_d81, not_tiles_d80, not_tiles_d82]

/-- For every file size that `d64_mount` accepts, the sectors of the mounted image tile the data
area of the file exactly when the image is not a D80 or D82 image and has fewer than 256 tracks of
64 KiB. -/
theorem mounted_tiles_iff {fsize : ℕ} {name : List UInt8} {it : ImageType} {p : Param}
    (h : imageFormat fsize name = some (it, p)) :
    Tiles it.type p.lastTrack (dataSize fsize it) ↔
      fsize < 16777216 ∧ fsize ∉ [533248, 535331, 1066496, 1070662] := by
  rcases imageFormat_cases h with hmem | ⟨hmod, rfl, rfl⟩
  · have hsmall : ∀ f ∈ fixedFormats, f.1 < 16777216 := by decide
    rw [fixedFormats_tiles _ hmem]
    exact (and_iff_right (hsmall _ hmem)).symm
  · have hnot : fsize ∉ [533248, 535331, 1066496, 1070662] := by
      intro hmem
      simp only [List.mem_cons, List.not_mem_nil, or_false] at hmem
      omega
    obtain ⟨n, rfl⟩ : ∃ n, fsize = 65536 * n := ⟨fsize / 65536, by omega⟩
    rw [and_iff_left hnot]
    have hn : 65536 * n / 65536 = n := by omega
    simp only [dataSize, hn]
    constructor
    · intro ht
      by_contra hlt
      exact not_tiles_dnp (show 256 ≤ n by omega) ht
    · intro hlt
      rw [Nat.mod_eq_of_lt (by omega)]
      exact tiles_dnp (by omega)

/-- `d64_mount` accepts D80 images, and their sectors 65/1 and 66/0 share one file offset. -/
theorem d80_not_tiled : imageFormat 533248 [] = some (⟨.d80, false⟩, d80param) ∧
    ValidTS .d80 77 65 1 ∧ ValidTS .d80 77 66 0 ∧
    sectorOffset .d80 65 1 = sectorOffset .d80 66 0 ∧
    ¬Tiles .d80 d80param.lastTrack (dataSize 533248 ⟨.d80, false⟩) :=
  ⟨by decide, by decide, by decide, by decide, not_tiles_d80 _⟩

/-- The witness of `mounted_tiles_iff`: a D41 image is tiled. -/
theorem d41_tiled : Tiles .d41 35 174848 := by
  have hformat : imageFormat 174848 [] = some (⟨.d41, false⟩, d41param) := by decide
  exact (mounted_tiles_iff hformat).mpr (by decide)

end NoDiskEmu.Dxx
