import NoDiskEmu.Dxx.Next
import NoDiskEmu.Dxx.Window

/-! Formatting an image.  `d64_format` writes the free sectors and the disk label partly past the BAM
buffers and partly into them; on the images seen through the buffers it does what the same format does
directly on an image file. -/

namespace NoDiskEmu.Dxx

open Library

variable {s s' s₀ : State} {part track sector : ℕ} {p : Partition}

/-! ### The code -/

/-- The sectors of a track. -/
def trackSectors (track n : ℕ) : List (ℕ × ℕ) := (List.range n).map fun q => (track, q)

/-- The sectors of an image, track by track. -/
def imageSectors (type : DxxType) (last : ℕ) : List (ℕ × ℕ) :=
  (List.range last).flatMap fun t => trackSectors (t + 1) (sectorsPerTrack type (t + 1))

/-- The loops that write one block to a list of sectors, up to the first error. -/
def writeSectors (part : ℕ) (data : ℕ → UInt8) : List (ℕ × ℕ) → State → ℕ × State
  | [], s => (0, s)
  | x :: xs, s =>
    let w := imageWrite s part (s.offset part x.1 x.2) 256 data
    if w.1 ≠ 0 then (1, w.2) else writeSectors part data xs w.2

/-- The loops that call `free_sector` or `allocate_sector` for a list of sectors. -/
def markSectors (free : Bool) (part : ℕ) (xs : List (ℕ × ℕ)) (s : State) : State :=
  xs.foldl (fun s x => (markSector s free part x.1 x.2).2) s

/-- Bytes of `bam_buffer->data` are set. -/
def State.editBam (s : State) (edit : (ℕ → UInt8) → ℕ → UInt8) : State :=
  { s with bamBuffer := { s.bamBuffer with data := edit s.bamBuffer.data } }

def State.dirtyBam (s : State) : State := { s with bamBuffer := { s.bamBuffer with mustflush := true } }

/-- The bytes of a list at the given place. -/
def putBytes (data : ℕ → UInt8) (pos : ℕ) (bytes : List UInt8) : ℕ → UInt8 :=
  Memory.write data pos bytes.length fun i => bytes.getD i 0

/-- The buffer of `clear_dir_sector`. -/
def emptyDirSector (i : ℕ) : UInt8 := if i = 1 then 0xff else 0

/-- `clear_dir_sector`. -/
def clearDirSector (s : State) (part track sector : ℕ) : ℕ × State :=
  imageWrite s part (s.offset part track sector) 256 emptyDirSector

/-- `format_add_bam_signature`. -/
def formatAddBamSignature (doschar : UInt8) (id : UInt8 × UInt8) (data : ℕ → UInt8) : ℕ → UInt8 :=
  putBytes data 2 [doschar, doschar ^^^ 0xff, id.1, id.2, 0xc0]

/-- The characters of a name that go into the label. -/
def labelChars (name : List UInt8) : List UInt8 := (name.takeWhile fun c => c ≠ 0).take 16

/-- `format_copy_label`: `dos` are the bytes 3 and 4 of `idbuf`. -/
def formatCopyLabel (param : Param) (name : List UInt8) (id dos : UInt8 × UInt8) (data : ℕ → UInt8) :
    ℕ → UInt8 :=
  let data := Memory.write data param.labelOffset 25 fun _ => 0xa0
  let data := putBytes data param.labelOffset (labelChars name)
  putBytes data param.idOffset [id.1, id.2, 0xa0, dos.1, dos.2]

/-- What `format_d41_image` writes into 18/0. -/
def d41Header (param : Param) (name : List UInt8) (id : UInt8 × UInt8) (data : ℕ → UInt8) : ℕ → UInt8 :=
  putBytes (formatCopyLabel param name id (0x32, 0x41) (putBytes data 0 [18, 1, 0x41])) 0xa9 [0xa0, 0xa0]

/-- `format_d41_image`. -/
def formatD41Image (part : ℕ) (name : List UInt8) (id : UInt8 × UInt8) (s : State) : State :=
  let s := markSectors false part (trackSectors 18 2) s
  let s := s.editBam (d41Header (s.param part) name id)
  (clearDirSector s part 18 1).2

/-- `format_d71_image`. -/
def formatD71Image (part : ℕ) (name : List UInt8) (id : UInt8 × UInt8) (s : State) : State :=
  let s := formatD41Image part name id s
  let s := s.editBam fun data => putBytes data 3 [0x80]
  markSectors false part (trackSectors 53 19) s

/-- What `format_d81_image` writes into 40/1 and 40/2. -/
def d81Bam (id : UInt8 × UInt8) (link : List UInt8) (data : ℕ → UInt8) : ℕ → UInt8 :=
  formatAddBamSignature 0x44 id (putBytes data 0 link)

def d81Header (param : Param) (name : List UInt8) (id : UInt8 × UInt8) : ℕ → UInt8 :=
  formatCopyLabel param name id (0x33, 0x44) (putBytes (fun _ => 0) 0 [40, 3, 0x44])

/-- `format_d81_image`. -/
def formatD81Image (part : ℕ) (name : List UInt8) (id : UInt8 × UInt8) (s : State) : State :=
  let s := markSectors false part (trackSectors 40 4) s
  let s := s.editBam (d81Bam id [40, 2])
  -- `bam_buffer` is switched to 40/2
  let s := (sectorsFree s part 41).2
  let s := (s.editBam (d81Bam id [0, 0xff])).dirtyBam
  let w := imageWrite s part ((40 - 1) * 40 * 256) 256 (d81Header (s.param part) name id)
  if w.1 ≠ 0 then w.2 else (clearDirSector w.2 part 40 3).2

/-- What `format_dnp_image` writes into 1/2. -/
def dnpBam (last : ℕ) (id : UInt8 × UInt8) (data : ℕ → UInt8) : ℕ → UInt8 :=
  putBytes (formatAddBamSignature 0x48 id data) 8 [.ofNat last]

def dnpHeader (param : Param) (name : List UInt8) (id : UInt8 × UInt8) : ℕ → UInt8 :=
  putBytes (formatCopyLabel param name id (0x31, 0x48) (putBytes (fun _ => 0) 0 [1, 34, 0x48])) 32 [1, 1]

/-- `format_dnp_image`. -/
def formatDnpImage (part : ℕ) (name : List UInt8) (id : UInt8 × UInt8) (s : State) : State :=
  let s := markSectors false part (trackSectors 1 35) s
  let s := s.editBam (dnpBam (s.lastTrack part) id)
  let w := imageWrite s part 256 256 (dnpHeader (s.param part) name id)
  if w.1 ≠ 0 then w.2 else (clearDirSector w.2 part 1 34).2

/-- The `format_function` of the parameters of an image. Those of D80 and D82 images do nothing. -/
def formatImage (part : ℕ) (name : List UInt8) (id : UInt8 × UInt8) (s : State) : State :=
  match s.type part with
  | .d41 => formatD41Image part name id s
  | .d71 => formatD71Image part name id s
  | .d81 => formatD81Image part name id s
  | .dnp => formatDnpImage part name id s
  | .d80 | .d82 | .none => s

/-- `d64_getid`: the result code, the first two bytes, and the state. Shifted spaces are replaced. -/
def d64Getid (s : State) (part : ℕ) (dir : ℕ × ℕ) : ℕ × (UInt8 × UInt8) × State :=
  let sector := if s.isDnp part then dir.2 else 0
  let r := imageRead s part (s.offset part dir.1 sector + (s.param part).idOffset) 5 fun _ => 0
  let subst := fun b : UInt8 => if b = 0xa0 then 0x20 else b
  (if r.1 ≠ 0 then 1 else 0, (subst (r.2.1 0), subst (r.2.1 1)), r.2.2)

/-- `d64_format` up to the loop that frees all sectors: the code is not 0 after an error. With an ID
all sectors are cleared, and without one those of the directory track. -/
def clearImage (part : ℕ) (id : Option (UInt8 × UInt8)) (s : State) : ℕ × (UInt8 × UInt8) × State :=
  match id with
  | some id =>
    let w := writeSectors part (fun _ => 0) (imageSectors (s.type part) (s.lastTrack part)) s
    (w.1, id, w.2)
  | none =>
    let dir := (s.param part).dirTrack
    let r := d64Getid s part (dir, 1)
    if r.1 ≠ 0 then r
    else
      let w := writeSectors part (fun _ => 0) (trackSectors dir (sectorsPerTrack (s.type part) dir)) r.2.2
      (w.1, r.2.1, w.2)

/-- The BAM buffers hold no sector. -/
def State.dropBam (s : State) : State :=
  { s with
    bamBuffer := { s.bamBuffer with part := 255 }
    bamBuffer2 := s.bamBuffer2.map fun b => { b with part := 255 } }

/-- `d64_format`: `room` tells if `alloc_buffer` finds a buffer, and `dir` is the current directory. -/
def d64Format (room : Bool) (part : ℕ) (dir : ℕ × ℕ) (name : List UInt8) (id : Option (UInt8 × UInt8))
    (s : State) : State :=
  if s.isDnp part ∧ dir ≠ (1, 1) then s
  else if room then
    let r := clearImage part id (d64BamCommit s).2.dropBam
    if r.1 ≠ 0 then r.2.2
    else
      let s := markSectors true part (imageSectors (r.2.2.type part) (r.2.2.lastTrack part)) r.2.2
      formatImage part name r.2.1 s
  else s.setError ERROR_NO_CHANNEL

/-! ### The format directly on an image file -/

namespace Partition

/-- The contents of a sector. -/
def sectorData (p : Partition) (track sector : ℕ) : ℕ → UInt8 :=
  fun i => p.image (sectorOffset p.imagetype.type track sector + i)

def setSector (p : Partition) (track sector : ℕ) (data : ℕ → UInt8) : Partition :=
  p.write (sectorOffset p.imagetype.type track sector) 256 data

def editSector (p : Partition) (track sector : ℕ) (edit : (ℕ → UInt8) → ℕ → UInt8) : Partition :=
  p.setSector track sector (edit (p.sectorData track sector))

def setAll (data : ℕ → UInt8) (xs : List (ℕ × ℕ)) (p : Partition) : Partition :=
  xs.foldl (fun p x => p.setSector x.1 x.2 data) p

def markAll (free : Bool) (xs : List (ℕ × ℕ)) (p : Partition) : Partition :=
  xs.foldl (fun p x => p.mark free x.1 x.2) p

def formatD41 (name : List UInt8) (id : UInt8 × UInt8) (p : Partition) : Partition :=
  ((p.markAll false (trackSectors 18 2)).editSector 18 0 (d41Header p.d64data name id)).setSector 18 1
    emptyDirSector

def formatD71 (name : List UInt8) (id : UInt8 × UInt8) (p : Partition) : Partition :=
  ((p.formatD41 name id).editSector 18 0 fun data => putBytes data 3 [0x80]).markAll false
    (trackSectors 53 19)

def formatD81 (name : List UInt8) (id : UInt8 × UInt8) (p : Partition) : Partition :=
  (((p.markAll false (trackSectors 40 4)).editSector 40 1 (d81Bam id [40, 2])).editSector 40 2
    (d81Bam id [0, 0xff])).setSector 40 0 (d81Header p.d64data name id) |>.setSector 40 3 emptyDirSector

def formatDnp (name : List UInt8) (id : UInt8 × UInt8) (p : Partition) : Partition :=
  ((p.markAll false (trackSectors 1 35)).editSector 1 2 (dnpBam p.d64data.lastTrack id)).setSector 1 1
    (dnpHeader p.d64data name id) |>.setSector 1 34 emptyDirSector

def formatSystem (name : List UInt8) (id : UInt8 × UInt8) (p : Partition) : Partition :=
  match p.imagetype.type with
  | .d41 => p.formatD41 name id
  | .d71 => p.formatD71 name id
  | .d81 => p.formatD81 name id
  | .dnp => p.formatDnp name id
  | .d80 | .d82 | .none => p

/-- The sectors that are cleared. -/
def cleared (p : Partition) (id : Option (UInt8 × UInt8)) : List (ℕ × ℕ) :=
  if id.isSome then imageSectors p.imagetype.type p.d64data.lastTrack
  else trackSectors p.d64data.dirTrack (sectorsPerTrack p.imagetype.type p.d64data.dirTrack)

end Partition

/-! ### Lists of sectors -/

theorem mem_trackSectors {t n : ℕ} {x : ℕ × ℕ} : x ∈ trackSectors t n ↔ x.1 = t ∧ x.2 < n := by
  rw [trackSectors, List.mem_map]
  constructor
  · rintro ⟨q, hq, rfl⟩
    exact ⟨rfl, List.mem_range.mp hq⟩
  · rintro ⟨rfl, hq⟩
    exact ⟨x.2, List.mem_range.mpr hq, rfl⟩

theorem mem_imageSectors {type : DxxType} {last : ℕ} {x : ℕ × ℕ} :
    x ∈ imageSectors type last ↔ ValidTS type last x.1 x.2 := by
  rw [imageSectors, List.mem_flatMap]
  constructor
  · rintro ⟨t, ht, hx⟩
    obtain ⟨hxt, hq⟩ := mem_trackSectors.mp hx
    have hlast := List.mem_range.mp ht
    refine ⟨by omega, by omega, ?_⟩
    rw [hxt]
    exact hq
  · rintro ⟨h1, h2, h3⟩
    refine ⟨x.1 - 1, List.mem_range.mpr (by omega), mem_trackSectors.mpr ?_⟩
    rw [Nat.sub_add_cancel h1]
    exact ⟨rfl, h3⟩

/-- `markSectors` marks the sectors on the image that is seen. -/
theorem markSectors_ok (hs : Coherent s) (free : Bool) (xs : List (ℕ × ℕ))
    (hxs : ∀ x ∈ xs, InRange s part x.1 x.2) :
    Becomes s (markSectors free part xs s) part ((s.through part).markAll free xs) := by
  induction xs generalizing s with
  | nil => exact Becomes.of_keeps (Keeps.refl s) hs
  | cons x xs ih =>
    obtain ⟨s', hmark, hbecomes⟩ := markSector_ok hs (hxs x List.mem_cons_self) free
    have hrest := ih hbecomes.coherent fun y hy =>
      (hxs y (List.mem_cons_of_mem x hy)).sameFormat hbecomes.toSameFormat
    rw [hbecomes.through_self] at hrest
    have hstep : markSectors free part (x :: xs) s = markSectors free part xs s' := by
      rw [markSectors, List.foldl_cons, hmark]
      rfl
    rw [hstep]
    exact hbecomes.trans hrest

theorem Started.writeSector (hs : Started s) (h : InRange s part track sector) (data : ℕ → UInt8) :
    ∃ s', imageWrite s part (s.offset part track sector) 256 data = (0, s') ∧ Started s' ∧
      Becomes s s' part ((s.through part).setSector track sector data) := by
  have hno : ∀ b, s.HasBuffer b → ¬b.HoldsSector part track sector := by
    rintro b hb ⟨hpart, -, -⟩
    have hlt := h.lt
    have hmax := hs.maxPart
    rcases hb with rfl | hb
    · have hempty := hs.first.1
      omega
    · have hempty := (hs.second b hb).1
      omega
  obtain ⟨s', hwrite, hbecomes⟩ := imageWrite_becomes hs.coherent h data (show 0 + 256 ≤ 256 by decide)
    fun b hb hhold => absurd hhold (hno b hb)
  rw [Nat.add_zero] at hwrite hbecomes
  refine ⟨s', hwrite, ?_, hbecomes⟩
  rw [imageWrite_ok hs.noFault] at hwrite
  cases hwrite
  exact ⟨hs.noFault, hs.maxPart, hs.first, hs.second⟩

theorem Started.writeSectors (hs : Started s) (data : ℕ → UInt8) (xs : List (ℕ × ℕ))
    (hxs : ∀ x ∈ xs, InRange s part x.1 x.2) :
    ∃ s', writeSectors part data xs s = (0, s') ∧ Started s' ∧
      Becomes s s' part ((s.through part).setAll data xs) := by
  induction xs generalizing s with
  | nil => exact ⟨s, rfl, hs, Becomes.of_keeps (Keeps.refl s) hs.coherent⟩
  | cons x xs ih =>
    obtain ⟨s1, hwrite, hs1, hbecomes⟩ := hs.writeSector (hxs x List.mem_cons_self) data
    obtain ⟨s', hrest, hs', hbecomes'⟩ := ih hs1 fun y hy =>
      (hxs y (List.mem_cons_of_mem x hy)).sameFormat hbecomes.toSameFormat
    rw [hbecomes.through_self] at hbecomes'
    refine ⟨s', ?_, hs', hbecomes.trans hbecomes'⟩
    rw [Dxx.writeSectors, hwrite]
    exact hrest

/-! ### Bytes of the BAM buffer -/

/-- An edit changes each byte by itself. -/
def Bytewise (edit : (ℕ → UInt8) → ℕ → UInt8) : Prop :=
  ∀ data data' i, data i = data' i → edit data i = edit data' i

theorem bytewise_putBytes (pos : ℕ) (bytes : List UInt8) : Bytewise fun data => putBytes data pos bytes := by
  intro data data' i h
  show Memory.write data _ _ _ i = Memory.write data' _ _ _ i
  rw [Memory.write, Memory.write, h]

theorem Bytewise.comp {f g : (ℕ → UInt8) → ℕ → UInt8} (hf : Bytewise f) (hg : Bytewise g) :
    Bytewise fun data => f (g data) :=
  fun data data' i h => hf _ _ i (hg data data' i h)

theorem bytewise_formatAddBamSignature (doschar : UInt8) (id : UInt8 × UInt8) :
    Bytewise (formatAddBamSignature doschar id) := bytewise_putBytes _ _

theorem bytewise_formatCopyLabel (param : Param) (name : List UInt8) (id dos : UInt8 × UInt8) :
    Bytewise (formatCopyLabel param name id dos) := by
  refine (bytewise_putBytes _ _).comp ((bytewise_putBytes _ _).comp fun data data' i h => ?_)
  rw [Memory.write, Memory.write, h]

theorem bytewise_d41Header (param : Param) (name : List UInt8) (id : UInt8 × UInt8) :
    Bytewise (d41Header param name id) :=
  (bytewise_putBytes _ _).comp ((bytewise_formatCopyLabel _ _ _ _).comp (bytewise_putBytes _ _))

theorem bytewise_d81Bam (id : UInt8 × UInt8) (link : List UInt8) : Bytewise (d81Bam id link) :=
  (bytewise_formatAddBamSignature _ _).comp (bytewise_putBytes _ _)

theorem bytewise_dnpBam (last : ℕ) (id : UInt8 × UInt8) : Bytewise (dnpBam last id) :=
  (bytewise_putBytes _ _).comp (bytewise_formatAddBamSignature _ _)

/-- New data in a buffer that must be flushed are seen in its sector. -/
theorem editBam_ok (hs : Coherent s) (hlt : part < s.maxPart) (h : Holds s part track sector)
    {edit : (ℕ → UInt8) → ℕ → UInt8} (hedit : Bytewise edit) :
    Becomes s (s.editBam edit).dirtyBam part ((s.through part).editSector track sector edit) := by
  obtain ⟨rfl, rfl, rfl⟩ := h
  have hvalid : s.bamBuffer.part ≠ 255 := by
    have hmax := hs.maxPart
    omega
  have hview : (s.editBam edit).dirtyBam.view = Function.update s.view s.bamBuffer.part
      (Memory.write (s.view s.bamBuffer.part)
        (s.offset s.bamBuffer.part s.bamBuffer.track s.bamBuffer.sector) 256 (edit s.bamBuffer.data)) := by
    rw [hs.view_eq_write hvalid, Function.update_self, Function.update_idem, Memory.write_write]
    rfl
  have hco : Coherent (s.editBam edit).dirtyBam :=
    ⟨hs.noFault, hs.maxPart,
      ⟨fun h => absurd h hvalid, fun _ => hs.first.part hvalid, fun _ => hs.first.bam hvalid, nofun⟩,
      fun b hb => (hs.second b hb).congr rfl rfl, hs.apart⟩
  refine ⟨(SameMeta.refl s).congr rfl rfl rfl rfl rfl, hco, ?_⟩
  funext q
  have hthrough : (s.editBam edit).dirtyBam.through q =
      { s.partition q with image := (s.editBam edit).dirtyBam.view q } := rfl
  rw [hthrough, hview]
  by_cases hq : q = s.bamBuffer.part
  · subst hq
    rw [Function.update_self, Function.update_self]
    refine congrArg (fun image => { s.partition s.bamBuffer.part with image }) (Memory.write_congr fun i hi => ?_)
    exact hedit _ _ i (hs.data_eq_view hvalid hi)
  · rw [Function.update_of_ne hq, Function.update_of_ne hq]
    rfl

theorem editBam_dirty (h : s.bamBuffer.mustflush = true) (edit : (ℕ → UInt8) → ℕ → UInt8) :
    (s.editBam edit).dirtyBam = s.editBam edit := by
  rw [State.dirtyBam, State.editBam]
  dsimp only
  rw [← h]

/-- `bam_buffer` has a sector and must be flushed. -/
structure HoldsDirty (s : State) (part track sector : ℕ) : Prop extends Holds s part track sector where
  mustflush : s.bamBuffer.mustflush = true

theorem HoldsDirty.editBam (h : HoldsDirty s part track sector) (hs : Coherent s) (hlt : part < s.maxPart)
    {edit : (ℕ → UInt8) → ℕ → UInt8} (hedit : Bytewise edit) :
    Becomes s (s.editBam edit) part ((s.through part).editSector track sector edit) := by
  rw [← editBam_dirty h.mustflush edit]
  exact editBam_ok hs hlt h.toHolds hedit

/-- The bits and the counter of the track are in one sector, or there is no counter. -/
def OneSector (s : State) (part track : ℕ) : Prop :=
  s.isDnp part = true ∨
    (bamPosition (s.type part) track .freecount).1 = (bamPosition (s.type part) track .bitfield).1 ∧
    (bamPosition (s.type part) track .freecount).2.1 = (bamPosition (s.type part) track .bitfield).2.1

/-- A sector that was free leaves its BAM sector in `bam_buffer`. -/
theorem allocateSector_holds (hs : Coherent s) (h : InRange s part track sector) (hone : OneSector s part track)
    (hfree : (s.through part).isFree track sector = true) :
    HoldsDirty (allocateSector s part track sector).2 part (bamPosition (s.type part) track .bitfield).1
      (bamPosition (s.type part) track .bitfield).2.1 := by
  obtain ⟨s1, hisfree, hco, hkeep⟩ := isFree_ok hs h.inBuffer
  obtain ⟨s2, hmove, hco2, hkeep2, hholds⟩ := moveBamWindow_ok hco (h.sameFormat hkeep.toSameFormat).lt
    h.inBuffer.le .bitfield
  rw [hkeep.type] at hmove hholds
  have hdnp : s1.isDnp part = s.isDnp part := by
    rw [State.isDnp, hkeep.imagetype]
    rfl
  rw [allocateSector, hisfree, if_pos hfree]
  dsimp only
  rw [if_neg (show ¬(1 : ℤ) < 0 by decide), if_pos (show (1 : ℤ) ≠ 0 by decide), flipSector, hmove, hdnp]
  dsimp only
  rw [if_neg (not_not.mpr rfl)]
  -- the byte with the bit is set in the buffer
  generalize hs3 : setBamByte s2 _ _ = s3
  have hdirty : HoldsDirty s3 part (bamPosition (s.type part) track .bitfield).1
      (bamPosition (s.type part) track .bitfield).2.1 := by
    rw [← hs3]
    exact ⟨⟨hholds.part, hholds.track, hholds.sector⟩, rfl⟩
  have htype : s3.type = s.type := by
    rw [← hs3]
    exact hkeep2.type.trans hkeep.type
  rcases hone with hyes | ⟨ht, hq⟩
  · rw [if_pos hyes]
    exact hdirty
  · by_cases hyes : s.isDnp part = true
    · rw [if_pos hyes]
      exact hdirty
    · have hmatch : bamBufferMatch s3.bamBuffer part (bamPosition (s3.type part) track .freecount).1
          (bamPosition (s3.type part) track .freecount).2.1 = true := by
        rw [htype, ht, hq]
        exact bamBufferMatch_iff.mpr ⟨hdirty.part, hdirty.track, hdirty.sector⟩
      rw [if_neg hyes, adjustCount, moveBamWindow_of_match hmatch]
      dsimp only
      rw [if_neg (not_not.mpr rfl)]
      split
      · exact hdirty
      · exact ⟨⟨hdirty.part, hdirty.track, hdirty.sector⟩, rfl⟩

theorem markSectors_append (free : Bool) (xs ys : List (ℕ × ℕ)) (s : State) :
    markSectors free part (xs ++ ys) s = markSectors free part ys (markSectors free part xs s) :=
  List.foldl_append

theorem trackSectors_succ (t n : ℕ) : trackSectors t (n + 1) = trackSectors t n ++ [(t, n)] := by
  rw [trackSectors, List.range_succ, List.map_append]
  rfl

namespace Partition

/-- The same image format. -/
structure SameKind (p p' : Partition) : Prop where
  imagetype : p'.imagetype = p.imagetype
  d64data : p'.d64data = p.d64data

namespace SameKind

variable {p' p'' : Partition}

theorem refl (p : Partition) : SameKind p p := ⟨rfl, rfl⟩

theorem trans (h : SameKind p p') (h' : SameKind p' p'') : SameKind p p'' :=
  ⟨h'.imagetype.trans h.imagetype, h'.d64data.trans h.d64data⟩

theorem mounted (h : SameKind p p') (hm : p.Mounted) : p'.Mounted := by
  rw [Mounted, h.imagetype, h.d64data]
  exact hm

theorem valid (h : SameKind p p') {t q : ℕ} : p'.Valid t q ↔ p.Valid t q := by
  rw [Valid, h.imagetype, h.d64data]
  rfl

theorem bamAddress (h : SameKind p p') (t : ℕ) (data : BamData) : p'.bamAddress t data = p.bamAddress t data := by
  rw [Partition.bamAddress, h.imagetype]
  rfl

theorem bitAddress (h : SameKind p p') (t q : ℕ) : p'.bitAddress t q = p.bitAddress t q := by
  rw [Partition.bitAddress, h.bamAddress]
  rfl

theorem bamByte (h : SameKind p p') {t o : ℕ} : p'.BamByte t o ↔ p.BamByte t o := by
  rw [BamByte, BamByte, h.bamAddress, h.imagetype]
  refine or_congr (exists_congr fun q => ?_) Iff.rfl
  rw [h.valid, h.bitAddress]

end SameKind

/-- What a list of marked sectors leaves. -/
structure MarkedAll (p p' : Partition) (free : Bool) (xs : List (ℕ × ℕ)) : Prop extends SameKind p p' where
  here : ∀ x ∈ xs, p'.isFree x.1 x.2 = free
  others : ∀ t q, p.Valid t q → (t, q) ∉ xs → p'.isFree t q = p.isFree t q
  counts : ∀ t, (∀ x ∈ xs, x.1 ≠ t) → p'.sectorsFree t = p.sectorsFree t
  bytes : ∀ o, (∀ x ∈ xs, ¬p.BamByte x.1 o) → p'.image o = p.image o

theorem markAll_marked (hm : p.Mounted) (free : Bool) (xs : List (ℕ × ℕ)) (hxs : ∀ x ∈ xs, p.Valid x.1 x.2) :
    MarkedAll p (p.markAll free xs) free xs := by
  induction xs generalizing p with
  | nil =>
    exact ⟨SameKind.refl p, fun _ hx => absurd hx List.not_mem_nil, fun _ _ _ _ => rfl, fun _ _ => rfl,
      fun _ _ => rfl⟩
  | cons x xs ih =>
    have hx := hxs x List.mem_cons_self
    have hmarked := mark_marked hm free hx
    have hkind : SameKind p (p.mark free x.1 x.2) := ⟨hmarked.imagetype, hmarked.d64data⟩
    have hrest := ih (hkind.mounted hm) fun y hy => hkind.valid.mpr (hxs y (List.mem_cons_of_mem x hy))
    show MarkedAll p ((p.mark free x.1 x.2).markAll free xs) free (x :: xs)
    refine ⟨hkind.trans hrest.toSameKind, fun y hy => ?_, fun t q hv hne => ?_, fun t ht => ?_, fun o ho => ?_⟩
    · by_cases hin : y ∈ xs
      · exact hrest.here y hin
      · obtain rfl := (List.mem_cons.mp hy).resolve_right hin
        rw [hrest.others _ _ (hkind.valid.mpr hx) hin, hmarked.here]
    · rw [hrest.others t q (hkind.valid.mpr hv) fun hin => hne (List.mem_cons_of_mem x hin)]
      refine hmarked.others t q hv ?_
      rintro ⟨rfl, rfl⟩
      exact hne List.mem_cons_self
    · rw [hrest.counts t fun y hy => ht y (List.mem_cons_of_mem x hy)]
      exact hmarked.counts t (ht x List.mem_cons_self).symm
    · rw [hrest.bytes o fun y hy hbyte => ho y (List.mem_cons_of_mem x hy) (hkind.bamByte.mp hbyte)]
      exact hmarked.bytes o (ho x List.mem_cons_self)

end Partition

/-- The BAM sector of the last allocated sector is in `bam_buffer`. -/
theorem markSectors_holds (hs : Coherent s) {n : ℕ} (h : InRange s part track n) (hone : OneSector s part track)
    (hfree : ∀ q ≤ n, (s.through part).isFree track q = true) :
    HoldsDirty (markSectors false part (trackSectors track (n + 1)) s) part
      (bamPosition (s.type part) track .bitfield).1 (bamPosition (s.type part) track .bitfield).2.1 := by
  have hrange : ∀ x ∈ trackSectors track n, InRange s part x.1 x.2 := by
    intro x hx
    obtain ⟨ht, hq⟩ := mem_trackSectors.mp hx
    rw [ht]
    exact ⟨h.lt, h.mounted, h.valid.1, h.valid.2.1, hq.trans h.valid.2.2⟩
  have hbecomes := markSectors_ok hs false (trackSectors track n) hrange
  have hmarked := Partition.markAll_marked (p := s.through part) h.mounted false (trackSectors track n)
    fun x hx => (hrange x hx).valid
  have hlast : ((markSectors false part (trackSectors track n) s).through part).isFree track n = true := by
    rw [hbecomes.through_self, hmarked.others track n h.valid, hfree n le_rfl]
    intro hin
    exact absurd (mem_trackSectors.mp hin).2 (lt_irrefl n)
  have hone' : OneSector (markSectors false part (trackSectors track n) s) part track := by
    rw [OneSector, hbecomes.type, State.isDnp, hbecomes.imagetype]
    exact hone
  have hholds := allocateSector_holds hbecomes.coherent (h.sameFormat hbecomes.toSameFormat) hone' hlast
  rw [hbecomes.type] at hholds
  rw [trackSectors_succ, markSectors_append]
  exact hholds

/-- A sector outside of the BAM is written past the buffers. -/
theorem Coherent.writeSector (hs : Coherent s) (h : InRange s part track sector)
    (hbam : ¬IsBamSector (s.type part) track sector) (data : ℕ → UInt8) :
    ∃ s', imageWrite s part (s.offset part track sector) 256 data = (0, s') ∧ s'.bamBuffer = s.bamBuffer ∧
      Becomes s s' part ((s.through part).setSector track sector data) := by
  obtain ⟨s', hwrite, hbecomes⟩ := imageWrite_becomes hs h data (show 0 + 256 ≤ 256 by decide)
    fun b hb hhold => absurd hhold (hs.not_holds h hbam hb)
  rw [Nat.add_zero] at hwrite hbecomes
  refine ⟨s', hwrite, ?_, hbecomes⟩
  rw [imageWrite_ok hs.noFault] at hwrite
  cases hwrite
  rfl

/-! ### The images of the four formats -/

/-- The parameters of a mounted image. -/
theorem Partition.Mounted.param (hm : p.Mounted) :
    (p.imagetype.type = .d41 → p.d64data = d41param) ∧ (p.imagetype.type = .d71 → p.d64data = d71param) ∧
      (p.imagetype.type = .d81 → p.d64data = d81param) ∧
      (p.imagetype.type = .dnp → p.d64data = { dnpparam with lastTrack := p.d64data.lastTrack }) := by
  obtain ⟨fsize, name, hformat⟩ := hm
  rcases imageFormat_cases hformat with hmem | ⟨-, hit, hp⟩
  · have hall : ∀ f ∈ fixedFormats, (f.2.1.type = .d41 → f.2.2 = d41param) ∧ (f.2.1.type = .d71 → f.2.2 = d71param) ∧
        (f.2.1.type = .d81 → f.2.2 = d81param) ∧ f.2.1.type ≠ .dnp := by decide
    obtain ⟨h41, h71, h81, hdnp⟩ := hall _ hmem
    exact ⟨h41, h71, h81, fun h => absurd h hdnp⟩
  · rw [hit, hp]
    exact ⟨nofun, nofun, nofun, fun _ => rfl⟩

theorem formatD41Image_ok (hs : Coherent s) (hlt : part < s.maxPart) (hm : (s.partition part).Mounted)
    (htype : s.type part = .d41 ∨ s.type part = .d71)
    (hfree : ∀ q ≤ 1, (s.through part).isFree 18 q = true) (name : List UInt8) (id : UInt8 × UInt8) :
    Becomes s (formatD41Image part name id s) part ((s.through part).formatD41 name id) ∧
      HoldsDirty (formatD41Image part name id s) part 18 0 := by
  have hlast : 35 ≤ s.lastTrack part := by
    show 35 ≤ (s.partition part).d64data.lastTrack
    rcases htype with h | h
    · rw [hm.param.1 h]
      exact le_rfl
    · rw [hm.param.2.1 h]
      exact show 35 ≤ 70 by decide
  have hrange : ∀ q ≤ 1, InRange s part 18 q := fun q hq => by
    refine ⟨hlt, hm, by decide, by omega, ?_⟩
    rcases htype with h | h <;> rw [h] <;> exact Nat.lt_of_le_of_lt hq (by decide)
  have hone : OneSector s part 18 ∧ (bamPosition (s.type part) 18 .bitfield).1 = 18 ∧
      (bamPosition (s.type part) 18 .bitfield).2.1 = 0 := by
    rw [OneSector]
    rcases htype with h | h <;> rw [h] <;> exact ⟨.inr ⟨rfl, rfl⟩, rfl, rfl⟩
  have hbam : ¬IsBamSector (s.type part) 18 1 := by
    rcases htype with h | h <;> rw [h] <;> decide
  have hmark := markSectors_ok hs false (trackSectors 18 2) fun x hx => by
    obtain ⟨ht, hq⟩ := mem_trackSectors.mp hx
    rw [ht]
    exact hrange _ (by omega)
  have hholds := markSectors_holds hs (hrange 1 le_rfl) hone.1 hfree
  rw [hone.2.1, hone.2.2] at hholds
  rw [formatD41Image]
  generalize markSectors false part (trackSectors 18 2) s = s1 at hmark hholds
  have hparam : s1.param part = (s.through part).d64data := hmark.d64data part
  have hedit := hholds.editBam hmark.coherent (hmark.maxPart ▸ hlt)
    (bytewise_d41Header (s1.param part) name id)
  rw [hmark.through_self, hparam] at hedit
  have hformat := hmark.toSameFormat.trans hedit.toSameFormat
  obtain ⟨s3, hwrite, hbuffer, hset⟩ := hedit.coherent.writeSector ((hrange 1 le_rfl).sameFormat hformat)
    (by rw [hformat.type]; exact hbam) emptyDirSector
  rw [hedit.through_self] at hset
  rw [hparam, clearDirSector, hwrite]
  refine ⟨hmark.trans (hedit.trans hset), ?_⟩
  exact ⟨⟨by rw [hbuffer]; exact hholds.part, by rw [hbuffer]; exact hholds.track, by rw [hbuffer]; exact hholds.sector⟩,
    by rw [hbuffer]; exact hholds.mustflush⟩

theorem formatD71Image_ok (hs : Coherent s) (hlt : part < s.maxPart) (hm : (s.partition part).Mounted)
    (htype : s.type part = .d71) (hfree : ∀ q ≤ 1, (s.through part).isFree 18 q = true)
    (name : List UInt8) (id : UInt8 × UInt8) :
    Becomes s (formatD71Image part name id s) part ((s.through part).formatD71 name id) := by
  obtain ⟨hd41, hholds⟩ := formatD41Image_ok hs hlt hm (.inr htype) hfree name id
  rw [formatD71Image]
  generalize formatD41Image part name id s = s1 at hd41 hholds
  have hedit := hholds.editBam hd41.coherent (hd41.maxPart ▸ hlt) (bytewise_putBytes 3 [0x80])
  rw [hd41.through_self] at hedit
  have hformat := hd41.toSameFormat.trans hedit.toSameFormat
  have hmark := markSectors_ok hedit.coherent false (trackSectors 53 19) fun x hx => by
    obtain ⟨ht, hq⟩ := mem_trackSectors.mp hx
    have hin : InRange s part 53 x.2 := by
      refine ⟨hlt, hm, by decide, ?_, ?_⟩
      · show 53 ≤ (s.partition part).d64data.lastTrack
        rw [hm.param.2.1 htype]
        decide
      · rw [htype]
        exact hq
    rw [ht]
    exact hin.sameFormat hformat
  rw [hedit.through_self] at hmark
  exact hd41.trans (hedit.trans hmark)

/-- `sectors_free` puts the sector with the counter of the track into `bam_buffer`. -/
theorem sectorsFree_holds (hs : Coherent s) (hlt : part < s.maxPart) (hm : (s.partition part).Mounted)
    (htrack : 1 ≤ track ∧ track ≤ s.lastTrack part) :
    ∃ s', (sectorsFree s part track).2 = s' ∧ Coherent s' ∧ Keeps s s' ∧
      Holds s' part (bamPosition (s.type part) track .freecount).1
        (bamPosition (s.type part) track .freecount).2.1 := by
  obtain ⟨s', hmove, hco, hkeep, hholds⟩ := moveBamWindow_ok hs hlt (htrack.2.trans hm.lastTrack_le) .freecount
  refine ⟨s', ?_, hco, hkeep, hholds⟩
  rw [sectorsFree, if_neg (by omega), hmove]
  exact congrArg Prod.snd (if_neg (not_not.mpr rfl))

theorem formatD81Image_ok (hs : Coherent s) (hlt : part < s.maxPart) (hm : (s.partition part).Mounted)
    (htype : s.type part = .d81) (hfree : ∀ q ≤ 3, (s.through part).isFree 40 q = true)
    (name : List UInt8) (id : UInt8 × UInt8) :
    Becomes s (formatD81Image part name id s) part ((s.through part).formatD81 name id) := by
  have hlast : s.lastTrack part = 80 := by
    show (s.partition part).d64data.lastTrack = 80
    rw [hm.param.2.2.1 htype]
    rfl
  have hrange : ∀ q ≤ 3, InRange s part 40 q := fun q hq => by
    refine ⟨hlt, hm, by decide, by omega, ?_⟩
    rw [htype]
    exact Nat.lt_of_le_of_lt hq (by decide)
  have hone : OneSector s part 40 ∧ (bamPosition (s.type part) 40 .bitfield).1 = 40 ∧
      (bamPosition (s.type part) 40 .bitfield).2.1 = 1 := by
    rw [OneSector, htype]
    exact ⟨.inr ⟨rfl, rfl⟩, rfl, rfl⟩
  have hmark := markSectors_ok hs false (trackSectors 40 4) fun x hx => by
    obtain ⟨ht, hq⟩ := mem_trackSectors.mp hx
    rw [ht]
    exact hrange _ (by omega)
  have hholds := markSectors_holds hs (hrange 3 le_rfl) hone.1 hfree
  rw [hone.2.1, hone.2.2] at hholds
  rw [formatD81Image]
  generalize markSectors false part (trackSectors 40 4) s = s1 at hmark hholds
  -- 40/1
  have hedit := hholds.editBam hmark.coherent (hmark.maxPart ▸ hlt) (bytewise_d81Bam id [40, 2])
  rw [hmark.through_self] at hedit
  have hformat := hmark.toSameFormat.trans hedit.toSameFormat
  generalize s1.editBam (d81Bam id [40, 2]) = s2 at hedit hformat
  -- 40/2
  have htrack : 1 ≤ 41 ∧ 41 ≤ s2.lastTrack part := ⟨by decide, by rw [hformat.lastTrack, hlast]; decide⟩
  obtain ⟨s3, hwindow, hco3, hkeep3, hholds3⟩ := sectorsFree_holds hedit.coherent (hformat.maxPart ▸ hlt)
    ((hformat.mounted part).mpr hm) htrack
  rw [hformat.type, htype] at hholds3
  have hformat3 := hformat.trans hkeep3.toSameFormat
  have hedit3 := editBam_ok hco3 (hformat3.maxPart ▸ hlt) hholds3 (bytewise_d81Bam id [0, 0xff])
  rw [hkeep3.through, hedit.through_self] at hedit3
  have hbecomes3 := hedit.trans (Becomes.after hkeep3 hedit3)
  rw [hwindow]
  generalize (s3.editBam (d81Bam id [0, 0xff])).dirtyBam = s4 at hedit3 hbecomes3
  have hformat4 := hmark.toSameFormat.trans hbecomes3.toSameFormat
  -- 40/0 and 40/3
  have hoffset : (40 - 1) * 40 * 256 = s4.offset part 40 0 := by
    rw [hformat4.offset, State.offset, htype]
    rfl
  have hparam : s4.param part = (s.through part).d64data := hformat4.d64data part
  have hbam : ∀ q, q ≠ 1 → q ≠ 2 → ¬IsBamSector (s.type part) 40 q := by
    intro q h1 h2
    rw [htype]
    rintro ⟨-, rfl | rfl⟩
    · exact h1 rfl
    · exact h2 rfl
  obtain ⟨s5, hwrite5, -, hset5⟩ := hbecomes3.coherent.writeSector ((hrange 0 (by decide)).sameFormat hformat4)
    (by rw [hformat4.type]; exact hbam 0 (by decide) (by decide)) (d81Header (s4.param part) name id)
  have hformat5 := hformat4.trans hset5.toSameFormat
  obtain ⟨s6, hwrite6, -, hset6⟩ := hset5.coherent.writeSector ((hrange 3 le_rfl).sameFormat hformat5)
    (by rw [hformat5.type]; exact hbam 3 (by decide) (by decide)) emptyDirSector
  rw [hbecomes3.through_self, hparam] at hset5
  rw [hset5.through_self] at hset6
  rw [hoffset, hwrite5, if_neg (not_not.mpr rfl), clearDirSector, hwrite6]
  exact hmark.trans (hbecomes3.trans (hset5.trans hset6))

theorem formatDnpImage_ok (hs : Coherent s) (hlt : part < s.maxPart) (hm : (s.partition part).Mounted)
    (htype : s.type part = .dnp) (hlast : 1 ≤ s.lastTrack part)
    (hfree : ∀ q ≤ 34, (s.through part).isFree 1 q = true) (name : List UInt8) (id : UInt8 × UInt8) :
    Becomes s (formatDnpImage part name id s) part ((s.through part).formatDnp name id) := by
  have hrange : ∀ q ≤ 34, InRange s part 1 q := fun q hq => by
    refine ⟨hlt, hm, by decide, hlast, ?_⟩
    rw [htype]
    exact Nat.lt_of_le_of_lt hq (by decide)
  have hone : (bamPosition (s.type part) 1 .bitfield).1 = 1 ∧
      (bamPosition (s.type part) 1 .bitfield).2.1 = 2 := by
    rw [htype]
    exact ⟨rfl, rfl⟩
  have hmark := markSectors_ok hs false (trackSectors 1 35) fun x hx => by
    obtain ⟨ht, hq⟩ := mem_trackSectors.mp hx
    rw [ht]
    exact hrange _ (by omega)
  have hholds := markSectors_holds hs (hrange 34 le_rfl) (.inl (hm.isDnp_iff.mpr htype)) hfree
  rw [hone.1, hone.2] at hholds
  rw [formatDnpImage]
  generalize markSectors false part (trackSectors 1 35) s = s1 at hmark hholds
  have hedit := hholds.editBam hmark.coherent (hmark.maxPart ▸ hlt) (bytewise_dnpBam (s1.lastTrack part) id)
  have hlast1 : s1.lastTrack part = (s.through part).d64data.lastTrack := by
    rw [hmark.lastTrack]
    rfl
  rw [hmark.through_self, hlast1] at hedit
  have hformat := hmark.toSameFormat.trans hedit.toSameFormat
  rw [hlast1]
  generalize s1.editBam (dnpBam (s.through part).d64data.lastTrack id) = s2 at hedit hformat
  -- 1/1 and 1/34
  have hoffset : 256 = s2.offset part 1 1 := by
    rw [hformat.offset, State.offset, htype]
    rfl
  have hparam : s2.param part = (s.through part).d64data := hformat.d64data part
  have hbam : ∀ q, q < 2 ∨ 34 ≤ q → ¬IsBamSector (s.type part) 1 q := by
    intro q hq
    rw [htype]
    rintro ⟨-, h2, h34⟩
    omega
  obtain ⟨s3, hwrite3, -, hset3⟩ := hedit.coherent.writeSector ((hrange 1 (by decide)).sameFormat hformat)
    (by rw [hformat.type]; exact hbam 1 (by decide)) (dnpHeader (s2.param part) name id)
  have hformat3 := hformat.trans hset3.toSameFormat
  obtain ⟨s4, hwrite4, -, hset4⟩ := hset3.coherent.writeSector ((hrange 34 le_rfl).sameFormat hformat3)
    (by rw [hformat3.type]; exact hbam 34 (by decide)) emptyDirSector
  rw [hedit.through_self, hparam] at hset3
  rw [hset3.through_self] at hset4
  have hwrite : imageWrite s2 part 256 256 (dnpHeader (s2.param part) name id) = (0, s3) := by
    rw [← hwrite3, ← hoffset]
  rw [hwrite, if_neg (not_not.mpr rfl), clearDirSector, hwrite4]
  exact hmark.trans (hedit.trans (hset3.trans hset4))

/-- The first sectors of the system track, which are allocated. -/
def systemTrack : DxxType → ℕ × ℕ
  | .d41 | .d71 | .d80 | .d82 | .none => (18, 1)
  | .d81 => (40, 3)
  | .dnp => (1, 34)

theorem formatImage_ok (hs : Coherent s) (hlt : part < s.maxPart) (hm : (s.partition part).Mounted)
    (hlast : 1 ≤ s.lastTrack part)
    (hfree : ∀ q ≤ (systemTrack (s.type part)).2, (s.through part).isFree (systemTrack (s.type part)).1 q = true)
    (name : List UInt8) (id : UInt8 × UInt8) :
    Becomes s (formatImage part name id s) part ((s.through part).formatSystem name id) := by
  rw [formatImage, Partition.formatSystem]
  show Becomes s _ part (match s.type part with
    | .d41 => (s.through part).formatD41 name id
    | .d71 => (s.through part).formatD71 name id
    | .d81 => (s.through part).formatD81 name id
    | .dnp => (s.through part).formatDnp name id
    | .d80 | .d82 | .none => s.through part)
  cases htype : s.type part <;> rw [htype] at hfree
  case d41 => exact (formatD41Image_ok hs hlt hm (.inl htype) hfree name id).1
  case d71 => exact formatD71Image_ok hs hlt hm htype hfree name id
  case d81 => exact formatD81Image_ok hs hlt hm htype hfree name id
  case dnp => exact formatDnpImage_ok hs hlt hm htype hlast hfree name id
  all_goals exact Becomes.of_keeps (Keeps.refl s) hs

/-! ### The whole format -/

/-- After `d64_bam_commit` the buffers may be dropped. -/
theorem dropBam_started (hs : Coherent s) :
    Started (d64BamCommit s).2.dropBam ∧ Keeps s (d64BamCommit s).2.dropBam := by
  obtain ⟨s', hcommit, hco, hkeep, himage, hclean, hclean'⟩ := d64BamCommit_ok hs
  rw [hcommit]
  have hstarted : Started s'.dropBam := by
    refine ⟨hco.noFault, hco.maxPart, ⟨rfl, hclean⟩, fun b hb => ?_⟩
    obtain ⟨c, hc, rfl⟩ := Option.map_eq_some_iff.mp hb
    exact ⟨rfl, hclean' c hc⟩
  refine ⟨hstarted, hkeep.toSameMeta.trans ((SameMeta.refl s').congr rfl rfl rfl rfl rfl), ?_⟩
  have hview := congrArg (fun ps q => (ps q).image) hstarted.through
  exact hview.trans himage

/-- The old ID as `d64_getid` gives it. -/
def oldId (p : Partition) : UInt8 × UInt8 :=
  let data := p.sectorData p.d64data.dirTrack (if p.isDnp then 1 else 0)
  let subst := fun b : UInt8 => if b = 0xa0 then 0x20 else b
  (subst (data p.d64data.idOffset), subst (data (p.d64data.idOffset + 1)))

/-- The format as it is without the buffers. -/
def Partition.format (name : List UInt8) (id : Option (UInt8 × UInt8)) (p : Partition) : Partition :=
  ((p.setAll (fun _ => 0) (p.cleared id)).markAll true
    (imageSectors p.imagetype.type p.d64data.lastTrack)).formatSystem name (id.getD (oldId p))

theorem Partition.Mounted.dirTrack (hm : p.Mounted) (hlast : 1 ≤ p.d64data.lastTrack) :
    1 ≤ p.d64data.dirTrack ∧ p.d64data.dirTrack ≤ p.d64data.lastTrack := by
  obtain ⟨fsize, name, hformat⟩ := hm
  rcases imageFormat_cases hformat with hmem | ⟨-, -, hp⟩
  · have hall : ∀ f ∈ fixedFormats, 1 ≤ f.2.2.dirTrack ∧ f.2.2.dirTrack ≤ f.2.2.lastTrack := by decide
    exact hall _ hmem
  · rw [hp] at hlast ⊢
    exact ⟨le_rfl, hlast⟩

/-- The sectors to clear are on the disk. -/
theorem Partition.valid_cleared (hm : p.Mounted) (hlast : 1 ≤ p.d64data.lastTrack) (id : Option (UInt8 × UInt8)) :
    ∀ x ∈ p.cleared id, p.Valid x.1 x.2 := by
  intro x hx
  rw [Partition.cleared] at hx
  split at hx
  · exact mem_imageSectors.mp hx
  · obtain ⟨ht, hq⟩ := mem_trackSectors.mp hx
    obtain ⟨h1, h2⟩ := hm.dirTrack hlast
    rw [ht]
    exact ⟨h1, h2, hq⟩

theorem Started.clearImage (hs : Started s) (hlt : part < s.maxPart) (hm : (s.partition part).Mounted)
    (hlast : 1 ≤ s.lastTrack part) (id : Option (UInt8 × UInt8)) :
    ∃ s', clearImage part id s = (0, id.getD (oldId (s.through part)), s') ∧ Started s' ∧
      Becomes s s' part ((s.through part).setAll (fun _ => 0) ((s.through part).cleared id)) := by
  have hvalid := Partition.valid_cleared (p := s.through part) hm hlast id
  obtain ⟨s', hwrite, hs', hbecomes⟩ := hs.writeSectors (fun _ => 0) ((s.through part).cleared id)
    fun x hx => ⟨hlt, hm, hvalid x hx⟩
  refine ⟨s', ?_, hs', hbecomes⟩
  cases id with
  | some id =>
    have hwrite' : Dxx.writeSectors part (fun _ => 0) (imageSectors (s.type part) (s.lastTrack part)) s =
      (0, s') := hwrite
    rw [Dxx.clearImage, hwrite']
    rfl
  | none =>
    have hwrite' : Dxx.writeSectors part (fun _ => 0)
        (trackSectors (s.param part).dirTrack (sectorsPerTrack (s.type part) (s.param part).dirTrack)) s =
      (0, s') := hwrite
    have hid : d64Getid s part ((s.param part).dirTrack, 1) = (0, oldId (s.through part), s) := by
      rw [d64Getid, hs.through, imageRead_ok hs.noFault]
      rfl
    rw [Dxx.clearImage]
    dsimp only
    rw [hid]
    dsimp only
    rw [if_neg (not_not.mpr rfl), hwrite']
    rfl

/-- On a disk in the root directory `d64_format` acts on the image that is seen as the format without
buffers acts on an image file. -/
theorem d64Format_ok (hs : Coherent s) (hlt : part < s.maxPart) (hm : (s.partition part).Mounted)
    (hlast : 1 ≤ s.lastTrack part) {dir : ℕ × ℕ} (hroot : s.isDnp part = true → dir = (1, 1))
    (htype : ∀ q ≤ (systemTrack (s.type part)).2, (s.through part).Valid (systemTrack (s.type part)).1 q)
    (name : List UInt8) (id : Option (UInt8 × UInt8)) :
    Becomes s (d64Format true part dir name id s) part ((s.through part).format name id) := by
  obtain ⟨hstarted, hkeep⟩ := dropBam_started hs
  rw [d64Format, if_neg fun h => h.2 (hroot h.1), if_pos rfl]
  generalize (d64BamCommit s).2.dropBam = s1 at hstarted hkeep
  obtain ⟨s2, hclear, hs2, hbecomes⟩ := hstarted.clearImage (hkeep.maxPart ▸ hlt)
    ((hkeep.mounted part).mpr hm) (by rw [hkeep.lastTrack]; exact hlast) id
  rw [hkeep.through] at hclear hbecomes
  have hbecomes2 := Becomes.after hkeep hbecomes
  rw [hclear]
  dsimp only
  rw [if_neg (not_not.mpr rfl), hbecomes2.type, hbecomes2.lastTrack]
  have hrange : ∀ x : ℕ × ℕ, ValidTS (s.type part) (s.lastTrack part) x.1 x.2 → InRange s2 part x.1 x.2 := fun x hx =>
    InRange.sameFormat ⟨hlt, hm, hx⟩ hbecomes2.toSameFormat
  have hmark := markSectors_ok hs2.coherent true (imageSectors (s.type part) (s.lastTrack part)) fun x hx =>
    hrange x (mem_imageSectors.mp hx)
  have hmarked := Partition.markAll_marked (p := s2.through part) ((hbecomes2.mounted part).mpr hm) true
    (imageSectors (s.type part) (s.lastTrack part)) fun x hx => (hrange x (mem_imageSectors.mp hx)).valid
  generalize markSectors true part (imageSectors (s.type part) (s.lastTrack part)) s2 = s3 at hmark
  have hformat := hbecomes2.toSameFormat.trans hmark.toSameFormat
  have hsystem := formatImage_ok hmark.coherent (hformat.maxPart ▸ hlt) ((hformat.mounted part).mpr hm)
    (by rw [hformat.lastTrack]; exact hlast) (fun q hq => by
      rw [hformat.type] at hq ⊢
      rw [hmark.through_self]
      exact hmarked.here ((systemTrack (s.type part)).1, q) (mem_imageSectors.mpr (htype q hq))) name
    (id.getD (oldId (s.through part)))
  rw [hmark.through_self, hbecomes2.through_self] at hsystem
  exact hbecomes2.trans (hmark.trans hsystem)

end NoDiskEmu.Dxx
