import NoDiskEmu.Dxx.Direct

/-! Access to whole sectors of an image file, past the BAM buffers. -/

namespace NoDiskEmu.Dxx

open Library

def ERROR_ILLEGAL_TS_COMMAND : ℕ := 66

def State.setErrorcache (s : State) (errorcache : ErrorCache) : State := { s with errorcache }

/-- The part of `checked_read` that reads the error info of a track into `errorcache`.  Only the
formats with an error-info block have one. -/
def loadErrors (s : State) (part track : ℕ) : ℕ × State :=
  let s := s.setErrorcache { s.errorcache with errors := fun _ => 1 }
  let type := s.type part
  if type = .none ∨ type = .dnp then (2, s)
  else
    let r := imageRead s part (errorOffset type + sectorLba type track 0)
      (sectorsPerTrack type track) s.errorcache.errors
    if r.1 ≥ 2 then (2, r.2.2.setErrorcache { s.errorcache with errors := r.2.1 })
    else (0, r.2.2.setErrorcache ⟨part, track, r.2.1⟩)

/-- The part of `checked_read` that looks a sector up in the error info: 0 when it can be read. -/
def checkErrors (s : State) (part track sector : ℕ) : ℕ × State :=
  if (s.partition part).imagetype.errorInfo then
    let l := if s.errorcache.part ≠ part ∨ s.errorcache.track ≠ track then loadErrors s part track
      else (0, s)
    if l.1 ≠ 0 then l
    else
      let e := (l.2.errorcache.errors sector).toNat
      if 2 ≤ e ∧ e ≤ 11 then (2, l.2.setErrorTs (e - 2 + 20) track sector)
      else if e = 15 then (2, l.2.setError 74)
      else (0, l.2)
  else (0, s)

/-- `checked_read`: the result code, the target buffer after the transfer, and the state. -/
def checkedRead (s : State) (part track sector : ℕ) (buf : ℕ → UInt8) (len error : ℕ) :
    ℕ × (ℕ → UInt8) × State :=
  if track < 1 ∨ track > s.lastTrack part ∨ sector ≥ sectorsPerTrack (s.type part) track then
    (2, buf, s.setErrorTs error track sector)
  else
    let c := checkErrors s part track sector
    if c.1 ≠ 0 then (2, buf, c.2)
    else imageRead c.2 part (s.offset part track sector) len buf

/-- `d64_read_sector`, for a buffer that holds `buf`: the data of the buffer afterwards. -/
def d64ReadSector (s : State) (part track sector : ℕ) (buf : ℕ → UInt8) : (ℕ → UInt8) × State :=
  (checkedRead s part track sector buf 256 ERROR_ILLEGAL_TS_COMMAND).2

/-- `d64_write_sector`. -/
def d64WriteSector (s : State) (part track sector : ℕ) (data : ℕ → UInt8) : State :=
  if track < 1 ∨ track > s.lastTrack part ∨ sector ≥ sectorsPerTrack (s.type part) track then
    s.setErrorTs ERROR_ILLEGAL_TS_COMMAND track sector
  else (imageWrite s part (s.offset part track sector) 256 data).2

/-! ### Sectors that no buffer holds -/

theorem Tiles.lba_injective {type : DxxType} {last size t q t' q' : ℕ} (h : Tiles type last size)
    (hv : ValidTS type last t q) (hv' : ValidTS type last t' q')
    (heq : sectorLba type t q = sectorLba type t' q') : t = t' ∧ q = q' :=
  h.injective t q t' q' hv hv' (by rw [sectorOffset, heq, sectorOffset])

/-- The tracks of D80 images whose sectors `sector_lba` numbers wrongly come after the BAM. -/
theorem d80_lba_apart {t q bq : ℕ} (h1 : 1 ≤ t) (h2 : t ≤ 154) (hq : q < sectorsPerTrack .d80 t)
    (hbq : bq < 29) (heq : lbaSum .d80 (t - 1) q % 65536 = lbaSum .d80 37 bq % 65536) :
    t = 38 ∧ q = bq := by
  have hbam : lbaSum .d80 37 bq = 1073 + bq := by simp [lbaSum]
  have hle : q < 29 := by
    have := sectorsPerTrack_le .d80 t
    simp only at this
    omega
  have hlt : lbaSum .d80 (t - 1) q < 65536 := by
    simp only [lbaSum]
    split_ifs <;> omega
  rw [Nat.mod_eq_of_lt hlt, hbam, Nat.mod_eq_of_lt (by omega)] at heq
  simp only [lbaSum] at heq
  split_ifs at heq <;> omega

/-- No other sector of a mounted image shares its offset with a BAM sector. -/
theorem bamSector_apart {p : Partition} (hm : p.Mounted) {t q bt bq : ℕ}
    (h : ValidTS p.imagetype.type p.d64data.lastTrack t q)
    (hbam : IsBamSector p.imagetype.type bt bq)
    (heq : sectorLba p.imagetype.type t q = sectorLba p.imagetype.type bt bq) :
    t = bt ∧ q = bq := by
  have hlast := hm.lastTrack
  obtain ⟨h1, h2, h3⟩ := h
  cases ht : p.imagetype.type <;> simp only [ht, IsBamSector] at hlast h3 heq hbam
  case d41 | none =>
    obtain ⟨rfl, rfl⟩ := hbam
    exact tiles_d41.lba_injective ⟨h1, by omega, h3⟩ (by decide) heq
  case d71 =>
    refine tiles_d71.lba_injective ⟨h1, by omega, h3⟩ ?_ heq
    rcases hbam with ⟨rfl, rfl⟩ | ⟨rfl, rfl⟩ <;> decide
  case d81 =>
    refine tiles_d81.lba_injective ⟨h1, by omega, h3⟩ ?_ heq
    rcases hbam with ⟨rfl, rfl | rfl⟩ <;> decide
  case dnp =>
    refine (tiles_dnp (Nat.le_refl 255)).lba_injective ⟨h1, by omega, h3⟩ ?_ heq
    obtain ⟨rfl, hs⟩ := hbam
    refine ⟨by decide, by decide, ?_⟩
    simp only [sectorsPerTrack]
    omega
  case d80 | d82 =>
    obtain ⟨rfl, -, hs⟩ := hbam
    simp only [sectorLba, show (t + 255) % 256 = t - 1 by omega] at heq
    exact d80_lba_apart h1 (by omega) h3 (by omega) heq

/-! ### Writes past the buffers -/

/-- The buffer holds the given sector. -/
def BamBuffer.HoldsSector (b : BamBuffer) (part track sector : ℕ) : Prop :=
  b.part = part ∧ b.track = track ∧ b.sector = sector

/-- `b` is one of the two BAM buffers. -/
def State.HasBuffer (s : State) (b : BamBuffer) : Prop := b = s.bamBuffer ∨ s.bamBuffer2 = some b

variable {s s' : State} {part track sector : ℕ}

theorem Coherent.bufferOk (hs : Coherent s) {b : BamBuffer} (hb : s.HasBuffer b) : BufferOk s b := by
  rcases hb with rfl | hb
  · exact hs.first
  · exact hs.second b hb

/-- A sector of an image and the sector of a valid buffer are the same or do not overlap. -/
theorem BufferOk.apart_sector {b : BamBuffer} (hb : BufferOk s b) (h : InRange s part track sector)
    (hpart : b.part = part) (hvalid : b.part ≠ 255) :
    b.HoldsSector part track sector ∨
      s.offset b.part b.track b.sector + 256 ≤ s.offset part track sector ∨
      s.offset part track sector + 256 ≤ s.offset b.part b.track b.sector := by
  subst hpart
  by_cases heq : sectorLba (s.type b.part) track sector = sectorLba (s.type b.part) b.track b.sector
  · obtain ⟨rfl, rfl⟩ := bamSector_apart h.mounted h.valid (hb.bam hvalid) heq
    exact .inl ⟨rfl, rfl, rfl⟩
  · right
    simp only [State.offset, sectorOffset]
    omega

/-- What a write to a part of a sector must find in a buffer that holds the sector, if it is to
leave the buffer coherent: the bytes that it writes. -/
def BamBuffer.Agrees (b : BamBuffer) (pos n : ℕ) (data : ℕ → UInt8) : Prop :=
  ∀ i < n, b.data (pos + i) = data i

theorem patch_write {b : BamBuffer} (hb : BufferOk s b) (h : InRange s part track sector)
    {pos n : ℕ} {data : ℕ → UInt8} (hn : pos + n ≤ 256)
    (hagree : b.HoldsSector part track sector → b.Agrees pos n data) (images : ℕ → ℕ → UInt8) :
    patch s.type b (Function.update images part
        (Memory.write (images part) (s.offset part track sector + pos) n data)) =
      Function.update (patch s.type b images) part
        (Memory.write (patch s.type b images part) (s.offset part track sector + pos) n data) := by
  by_cases hm : b.mustflush = true
  · have hvalid : b.part ≠ 255 := fun h255 => by simp [hb.empty h255] at hm
    simp only [patch, hm, if_true]
    by_cases hpart : b.part = part
    · have hdis := hb.apart_sector h hpart hvalid
      subst hpart
      simp only [Function.update_self, Function.update_idem]
      rw [Memory.write_comm_of_agree fun o ho1 ho2 ho3 ho4 => ?_]
      rcases hdis with hhold | hdis
      · have ht := hhold.2.1
        have hq := hhold.2.2
        have hbyte := hagree hhold (o - (s.offset b.part track sector + pos)) (by omega)
        rw [← hbyte]
        congr 1
        simp only [State.offset, ht, hq] at ho1 ho2 ho3 ho4 ⊢
        omega
      · simp only [State.offset] at ho1 ho2 ho3 ho4 hdis
        omega
    · rw [Function.update_of_ne hpart, Function.update_of_ne (Ne.symm hpart),
        Function.update_comm (Ne.symm hpart)]
  · simp only [patch_clean (show b.mustflush = false by simpa using hm)]

/-- A buffer stays coherent when it agrees with what is written to the image. -/
theorem BufferOk.of_write {b : BamBuffer} (hb : BufferOk s b) (h : InRange s part track sector)
    {pos n : ℕ} {data : ℕ → UInt8} (hn : pos + n ≤ 256)
    (hagree : b.HoldsSector part track sector → b.Agrees pos n data) :
    BufferOk (s.setImage part
      (Memory.write (s.image part) (s.offset part track sector + pos) n data)) b := by
  have hmeta := s.setImage_sameMeta part
    (Memory.write (s.image part) (s.offset part track sector + pos) n data)
  refine ⟨hb.empty, fun hv => hmeta.maxPart ▸ hb.part hv, fun hv => hmeta.type ▸ hb.bam hv,
    fun hv hm i hi => ?_⟩
  rw [hb.clean hv hm i hi, hmeta.offset, State.image_setImage]
  by_cases hpart : b.part = part
  · have hdis := hb.apart_sector h hpart hv
    subst hpart
    rw [Function.update_self, ← hb.clean hv hm i hi]
    rcases hdis with hhold | hdis
    · rw [hhold.2.1, hhold.2.2]
      by_cases hin : pos ≤ i ∧ i < pos + n
      · obtain ⟨j, rfl⟩ : ∃ j, i = pos + j := ⟨i - pos, by omega⟩
        rw [← Nat.add_assoc, Memory.write_inside (by omega), hagree hhold j (by omega)]
      · rw [Memory.write_outside (by omega), hb.clean hv hm i hi, hhold.2.1, hhold.2.2]
    · rw [Memory.write_outside (by omega), hb.clean hv hm i hi]
  · rw [Function.update_of_ne hpart]

/-- A write to a part of a sector, if no buffer disagrees with it. -/
theorem imageWrite_becomes (hs : Coherent s) (h : InRange s part track sector) {pos n : ℕ}
    (data : ℕ → UInt8) (hn : pos + n ≤ 256)
    (hagree : ∀ b, s.HasBuffer b → b.HoldsSector part track sector → b.Agrees pos n data) :
    ∃ s', imageWrite s part (s.offset part track sector + pos) n data = (0, s') ∧
      Becomes s s' part ((s.through part).write (s.offset part track sector + pos) n data) := by
  refine ⟨_, imageWrite_ok hs.noFault _ _ _ _, s.setImage_sameMeta _ _, ?_, ?_⟩
  · refine ⟨hs.noFault, hs.maxPart, hs.first.of_write h hn (hagree _ (.inl rfl)),
      fun b hb => (hs.second b hb).of_write h hn (hagree b (.inr hb)), hs.apart⟩
  · have hmeta := s.setImage_sameMeta part
      (Memory.write (s.image part) (s.offset part track sector + pos) n data)
    have hview : (s.setImage part
        (Memory.write (s.image part) (s.offset part track sector + pos) n data)).view =
        Function.update s.view part
          (Memory.write (s.view part) (s.offset part track sector + pos) n data) := by
      have hbam : (s.setImage part
          (Memory.write (s.image part) (s.offset part track sector + pos) n data)).bamBuffer = s.bamBuffer := rfl
      have hbam2 : (s.setImage part
          (Memory.write (s.image part) (s.offset part track sector + pos) n data)).bamBuffer2 = s.bamBuffer2 := rfl
      simp only [State.view, hmeta.type, State.image_setImage, hbam, hbam2]
      cases hsecond : s.bamBuffer2 with
      | none => exact patch_write hs.first h hn (hagree _ (.inl rfl)) _
      | some b =>
        simp only
        rw [patch_write (hs.second b hsecond) h hn (hagree b (.inr hsecond)),
          patch_write hs.first h hn (hagree _ (.inl rfl))]
    funext p
    simp only [State.through, hview]
    by_cases hp : p = part
    · subst hp
      simp only [Function.update_self, hmeta.imagetype, hmeta.d64data, hmeta.writable,
        Partition.write]
    · simp only [Function.update_of_ne hp, hmeta.imagetype, hmeta.d64data, hmeta.writable]
      rfl

/-- No buffer holds a sector that is none of the BAM. -/
theorem Coherent.not_holds (hs : Coherent s) (h : InRange s part track sector)
    (hbam : ¬IsBamSector (s.type part) track sector) {b : BamBuffer} (hb : s.HasBuffer b) :
    ¬b.HoldsSector part track sector := by
  rintro ⟨hpart, htrack, hsector⟩
  have hmax := hs.maxPart
  have hlt := h.lt
  have hbuf := (hs.bufferOk hb).bam (by omega)
  rw [hpart, htrack, hsector] at hbuf
  exact hbam hbuf

/-! ### Reads past the buffers -/

/-- The error-info block of an image comes after its BAM sectors. -/
theorem bamSector_lt_errorOffset {type : DxxType} {t q : ℕ} (h : IsBamSector type t q)
    (htype : type ≠ .none ∧ type ≠ .dnp) : sectorOffset type t q + 256 ≤ errorOffset type := by
  cases type <;> simp only [IsBamSector] at h
  case d71 => rcases h with ⟨rfl, rfl⟩ | ⟨rfl, rfl⟩ <;> decide
  case d41 => obtain ⟨rfl, rfl⟩ := h; decide
  case d81 => rcases h with ⟨rfl, rfl | rfl⟩ <;> decide
  case d80 | d82 =>
    obtain ⟨rfl, -, hq⟩ := h
    simp only [sectorOffset, sectorLba, lbaSum, errorOffset]
    simp
    omega
  all_goals simp at htype

/-- The calls on the BAM, and the calls that block commands make past the BAM buffers. -/
inductive SectorCall
  | bam (call : BamCall)
  | bamCommit
  | readSector (part track sector : ℕ) (buf : ℕ → UInt8)
  | writeSector (part track sector : ℕ) (data : ℕ → UInt8)

/-- What a call returns: a number, or the contents of the buffer. -/
inductive Answer
  | value (n : ℤ)
  | data (bytes : ℕ → UInt8)

namespace SectorCall

def run (s : State) : SectorCall → Answer × State
  | bam call => let r := call.run s; (.value r.1, r.2)
  | bamCommit => let r := d64BamCommit s; (.value r.1, r.2)
  | readSector part track sector buf =>
    let r := d64ReadSector s part track sector buf; (.data r.1, r.2)
  | writeSector part track sector data => (.value 0, d64WriteSector s part track sector data)

/-- The same calls without the BAM buffers: all of them act on the image files. -/
def direct (s : State) : SectorCall → Answer × State
  | bam call => let r := call.direct s.partition; (.value r.1, { s with partition := r.2 })
  | bamCommit => (.value 0, s)
  | readSector part track sector buf =>
    let r := d64ReadSector s part track sector buf; (.data r.1, r.2)
  | writeSector part track sector data => (.value 0, d64WriteSector s part track sector data)

def InRange (s : State) : SectorCall → Prop
  | bam call => call.InRange s
  | bamCommit => True
  | readSector part track sector _ | writeSector part track sector _ =>
    Dxx.InRange s part track sector

end SectorCall

/-- `d` is `s` with the buffers flushed. -/
structure Common (s d : State) : Prop where
  coherent : Coherent s
  noFault : d.NoFault
  partition : d.partition = s.through
  maxPart : d.maxPart = s.maxPart
  errorcache : d.errorcache = s.errorcache

variable {d : State}

namespace Common

theorem type (h : Common s d) (part : ℕ) : d.type part = s.type part := by
  rw [State.type, h.partition]
  rfl

theorem offset (h : Common s d) : d.offset = s.offset := by
  funext part track sector
  rw [State.offset, h.type]
  rfl

theorem lastTrack (h : Common s d) (part : ℕ) : d.lastTrack part = s.lastTrack part := by
  rw [State.lastTrack, h.partition]
  rfl

theorem errorInfo (h : Common s d) (part : ℕ) :
    (d.partition part).imagetype.errorInfo = (s.partition part).imagetype.errorInfo := by
  rw [h.partition]
  rfl

theorem image (h : Common s d) (part : ℕ) : d.image part = s.view part := by
  rw [State.image, h.partition]
  rfl

theorem setErrorTs (h : Common s d) (code track sector : ℕ) :
    Common (s.setErrorTs code track sector) (d.setErrorTs code track sector) :=
  ⟨(setError_ok h.coherent code track sector).1, h.noFault, h.partition, h.maxPart, h.errorcache⟩

theorem setErrorcache (h : Common s d) (errorcache : ErrorCache) :
    Common (s.setErrorcache errorcache) (d.setErrorcache errorcache) :=
  ⟨⟨h.coherent.noFault, h.coherent.maxPart, h.coherent.first.congr rfl rfl,
    fun b hb => (h.coherent.second b hb).congr rfl rfl, h.coherent.apart⟩, h.noFault, h.partition,
    h.maxPart, rfl⟩

end Common

namespace SectorCall

theorem InRange.sameFormat {c : SectorCall} (h : c.InRange s) (hsame : SameFormat s s') :
    c.InRange s' := by
  cases c with
  | bam call => exact BamCall.InRange.sameFormat h hsame
  | bamCommit => trivial
  | _ => exact Dxx.InRange.sameFormat h hsame

end SectorCall

end NoDiskEmu.Dxx
