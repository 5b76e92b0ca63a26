import NoDiskEmu.Dxx.Links
import NoDiskEmu.Dxx.Mount

/-! The cache for the error info of a track, while images are mounted and sectors are read and any
access to an image file may fail. -/

namespace NoDiskEmu.Dxx

open Library

/-- A mount request or a `checked_read`. A partition has a number below 255. -/
inductive ErrorUse
  | mount (part : Fin 255) (fsize : ℕ) (name : List UInt8) (image : ℕ → UInt8) (writable : Bool)
  | read (part : Fin 255) (track sector : ℕ) (buf : ℕ → UInt8) (len error : ℕ)

namespace ErrorUse

/-- A mount request comes from `fat_chdir`, so that no image is mounted in the partition then; the
sectors of a partition are read while one is. -/
def step (v : Drive) : ErrorUse → ℕ × Drive
  | .mount part fsize name image writable =>
    Drive.mountImage { v with d64ops := Function.update v.d64ops part false } part fsize name image writable
  | .read part track sector buf len error =>
    if v.d64ops part then
      let r := checkedRead v.disk part track sector buf len error
      (r.1, { v with disk := r.2.2 })
    else (0, v)

end ErrorUse

/-- No track has its error info in the cache: so it is at the start and after a mount. -/
def ErrorCache.Unset (c : ErrorCache) : Prop := c.part = 255 ∨ c.track = 0

namespace State

/-- The error info has to be read from the image. -/
def Misses (s : State) (part track : ℕ) : Prop := s.errorcache.part ≠ part ∨ s.errorcache.track ≠ track

instance (s : State) (part track : ℕ) : Decidable (s.Misses part track) := inferInstanceAs (Decidable (_ ∨ _))

/-- `checked_read` looks into the cache for this sector. -/
def Looks (s : State) (part track sector : ℕ) : Prop :=
  ValidTS (s.type part) (s.lastTrack part) track sector ∧ (s.partition part).imagetype.errorInfo = true

/-- The cache is said to hold the error info of the track: it was there or was read from the image. -/
def Loads (s : State) (part track : ℕ) : Prop := s.Misses part track → (loadErrors s part track).1 = 0

end State

/-- What `checked_read` decides from the cache is what the image says: the sector is good or bad. -/
def Decides (v : Drive) : ErrorUse → Prop
  | .mount .. => True
  | .read part track sector _ _ _ =>
    v.d64ops part = true → v.disk.Looks part track sector → v.disk.Loads part track →
      ((checkErrors v.disk part track sector).1 = 0 ↔ v.disk.Readable part (track, sector))

/-- A read of the error info of a track gives all of it, or fails while the cache is not in use. -/
def ReadsErrors (v : Drive) : ErrorUse → Prop
  | .mount .. => True
  | .read part track sector _ _ _ =>
    v.d64ops part = true → v.disk.Looks part track sector → v.disk.Misses part track →
      match v.disk.io 0 with
      | .ok => True
      | .short _ => False
      | .failed _ _ => v.disk.errorcache.Unset

/-- Each partition with an image has one of the formats, and the cache is unset or holds what the image
of its partition says. -/
structure Tagged (v : Drive) : Prop where
  mounted : ∀ part, v.d64ops part = true → (v.disk.partition part).Mounted
  cached : v.disk.errorcache.Unset ∨ ∀ part, v.d64ops part = true → v.disk.Cached part

variable {v : Drive} {s : State} {part track sector : ℕ}

/-- A failed read leaves other bytes in the cache, under the same tag. -/
theorem loadErrors_failed {error : DosError} {junk : ℕ → UInt8} (hio : s.io 0 = .failed error junk)
    (htype : s.type part ≠ .none ∧ s.type part ≠ .dnp) (track : ℕ) :
    ∃ errors, loadErrors s part track =
      (2, { s.nextIo with error, errorcache := { s.errorcache with errors } }) := by
  have hnot : ¬((s.setErrorcache { s.errorcache with errors := fun _ => 1 }).type part = .none ∨
      (s.setErrorcache { s.errorcache with errors := fun _ => 1 }).type part = .dnp) :=
    not_or.mpr htype
  have hio' : (s.setErrorcache { s.errorcache with errors := fun _ => 1 }).io 0 = .failed error junk := hio
  unfold loadErrors
  dsimp only
  rw [if_neg hnot, imageRead, hio']
  exact ⟨_, rfl⟩

/-- The cache that holds the error info of a track says nothing of other partitions. -/
theorem cached_of_loaded {errors : ℕ → UInt8} (hcache : s.errorcache = ⟨part, track, errors⟩)
    (herrors : ∀ q < sectorsPerTrack (s.type part) track, (errors q).toNat = s.errorByte part track q) (q : ℕ) :
    s.Cached q := by
  intro _ hq
  rw [hcache] at hq ⊢
  have hpart : part = q := hq
  subst hpart
  exact herrors

/-- The cache and the image file are all that a decision depends on. -/
theorem State.Cached.congr {s' : State} (h : s.Cached part) (hpartition : s'.partition part = s.partition part)
    (hcache : s'.errorcache = s.errorcache) : s'.Cached part := by
  intro hinfo hpart q hq
  rw [hpartition] at hinfo
  rw [hcache] at hpart hq ⊢
  have htype : s'.type part = s.type part := congrArg (fun p => p.imagetype.type) hpartition
  have himage : s'.image part = s.image part := congrArg Partition.image hpartition
  rw [htype] at hq
  rw [State.errorByte, htype, himage]
  exact h hinfo hpart q hq

/-- A look into the error info: the cache stays unset or right, and the decision is right. -/
theorem Tagged.look (h : Tagged v) (hpart : part < 255) (hops : v.d64ops part = true)
    (hlook : v.disk.Looks part track sector)
    (hreads : v.disk.Misses part track →
      match v.disk.io 0 with
      | .ok => True
      | .short _ => False
      | .failed _ _ => v.disk.errorcache.Unset) :
    (checkErrors v.disk part track sector).2.partition = v.disk.partition ∧
      ((checkErrors v.disk part track sector).2.errorcache.Unset ∨
        ∀ q, v.d64ops q = true → (checkErrors v.disk part track sector).2.Cached q) ∧
      (v.disk.Loads part track →
        ((checkErrors v.disk part track sector).1 = 0 ↔ v.disk.Readable part (track, sector))) := by
  obtain ⟨hvalid, hinfo⟩ := hlook
  have htype := (h.mounted part hops).errorInfo hinfo
  have hresult : ∀ {c : ℕ × State} {t : State} {error : DosError},
      c = (if v.disk.Readable part (track, sector) then 0 else 2, { t with error }) →
        (c.1 = 0 ↔ v.disk.Readable part (track, sector)) := by
    rintro c t error rfl
    split
    · next hread => exact iff_of_true rfl hread
    · next hread => exact iff_of_false (Nat.succ_ne_zero 1) hread
  by_cases hmiss : v.disk.Misses part track
  · have hio := hreads hmiss
    cases hfirst : v.disk.io 0 with
    | ok =>
      obtain ⟨errors, hload, herrors⟩ := loadErrors_ok hfirst htype track
      obtain ⟨error, hcheck, -, -⟩ := checkErrors_loaded (x := (track, sector)) hvalid hinfo
        ((if_pos hmiss).trans hload) (herrors sector hvalid.2.2)
      refine ⟨by rw [hcheck]; rfl, .inr fun q _ => ?_, fun _ => hresult hcheck⟩
      rw [hcheck]
      exact cached_of_loaded rfl herrors q
    | short junk =>
      rw [hfirst] at hio
      exact hio.elim
    | failed error junk =>
      rw [hfirst] at hio
      obtain ⟨errors, hload⟩ := loadErrors_failed hfirst htype track
      have hcheck : checkErrors v.disk part track sector = loadErrors v.disk part track := by
        have hmiss' : v.disk.errorcache.part ≠ part ∨ v.disk.errorcache.track ≠ track := hmiss
        rw [checkErrors, if_pos hinfo, if_pos hmiss', hload]
        rfl
      rw [hcheck, hload]
      refine ⟨rfl, .inl hio, fun hloads => ?_⟩
      have hzero := hloads hmiss
      rw [hload] at hzero
      cases hzero
  · have hhit : v.disk.errorcache.part = part ∧ v.disk.errorcache.track = track := by
      simpa [State.Misses] using hmiss
    have hset : ¬v.disk.errorcache.Unset := by
      rintro (hnone | hzero)
      · omega
      · have hfirst : 1 ≤ track := hvalid.1
        omega
    have hcached := h.cached.resolve_left hset
    have hbyte : (v.disk.errorcache.errors sector).toNat = v.disk.errorByte part track sector := by
      have hall := hcached part hops hinfo hhit.1
      rw [hhit.2] at hall
      exact hall sector hvalid.2.2
    obtain ⟨error, hcheck, -, -⟩ := checkErrors_loaded (x := (track, sector)) hvalid hinfo (if_neg hmiss) hbyte
    refine ⟨by rw [hcheck], .inr fun q hq => ?_, fun _ => hresult hcheck⟩
    rw [hcheck]
    exact (hcached q hq).congr rfl rfl

theorem imageRead_partition (s : State) (part offset bytes : ℕ) (buf : ℕ → UInt8) :
    (imageRead s part offset bytes buf).2.2.partition = s.partition ∧
      (imageRead s part offset bytes buf).2.2.errorcache = s.errorcache := by
  rw [imageRead]
  split <;> exact ⟨rfl, rfl⟩

/-- Another state of the image files' variables with the same files and the same cache. -/
theorem Tagged.congr (h : Tagged v) {s' : State} (hpartition : s'.partition = v.disk.partition)
    (hcache : s'.errorcache = v.disk.errorcache) : Tagged { v with disk := s' } := by
  refine ⟨fun q hq => ?_, ?_⟩
  · show (s'.partition q).Mounted
    rw [hpartition]
    exact h.mounted q hq
  · rcases h.cached with hunset | hcached
    · refine .inl ?_
      show s'.errorcache.Unset
      rwa [hcache]
    · exact .inr fun q hq => (hcached q hq).congr (congrFun hpartition q) hcache

/-- A `checked_read` with the cache in such a state. -/
theorem Tagged.checkedRead (h : Tagged v) (hpart : part < 255) (hops : v.d64ops part = true)
    (hreads : v.disk.Looks part track sector → v.disk.Misses part track →
      match v.disk.io 0 with
      | .ok => True
      | .short _ => False
      | .failed _ _ => v.disk.errorcache.Unset) (buf : ℕ → UInt8) (len error : ℕ) :
    Tagged { v with disk := (checkedRead v.disk part track sector buf len error).2.2 } := by
  have hcheck : ValidTS (v.disk.type part) (v.disk.lastTrack part) track sector →
      Tagged { v with disk := (checkErrors v.disk part track sector).2 } := by
    intro hvalid
    by_cases hinfo : (v.disk.partition part).imagetype.errorInfo = true
    · obtain ⟨hpartition, hcached, -⟩ := h.look hpart hops ⟨hvalid, hinfo⟩ (hreads ⟨hvalid, hinfo⟩)
      refine ⟨fun q hq => ?_, hcached⟩
      show ((checkErrors v.disk part track sector).2.partition q).Mounted
      rw [hpartition]
      exact h.mounted q hq
    · rw [checkErrors, if_neg hinfo]
      exact h
  rw [Dxx.checkedRead]
  split
  · exact h.congr rfl rfl
  · next hrange =>
    have hvalid : ValidTS (v.disk.type part) (v.disk.lastTrack part) track sector := by
      rw [ValidTS]
      omega
    dsimp only
    split
    · exact hcheck hvalid
    · exact (hcheck hvalid).congr (imageRead_partition ..).1 (imageRead_partition ..).2

/-- One partition gets another image, or loses the one it had. -/
theorem Tagged.replace (h : Tagged v) (part : ℕ) {w : Drive} (hops : ∀ q ≠ part, w.d64ops q = v.d64ops q)
    (hpartition : ∀ q ≠ part, w.disk.partition q = v.disk.partition q)
    (hcache : w.disk.errorcache = v.disk.errorcache ∨ w.disk.errorcache.Unset)
    (hnew : w.d64ops part = true → (w.disk.partition part).Mounted ∧
      ((w.disk.partition part).imagetype.errorInfo = true → w.disk.errorcache.Unset)) : Tagged w := by
  refine ⟨fun q hq => ?_, ?_⟩
  · by_cases heq : q = part
    · subst heq
      exact (hnew hq).1
    · rw [hpartition q heq]
      exact h.mounted q ((hops q heq).symm.trans hq)
  · by_cases hunset : w.disk.errorcache.Unset
    · exact .inl hunset
    · have hsame := hcache.resolve_right hunset
      have hcached := h.cached.resolve_left (hsame ▸ hunset)
      refine .inr fun q hq => ?_
      by_cases heq : q = part
      · subst heq
        exact fun hinfo => absurd ((hnew hq).2 hinfo) hunset
      · exact (hcached q ((hops q heq).symm.trans hq)).congr (hpartition q heq) hsame

/-- The end of a mount: an image with error info makes the cache unset. -/
theorem Tagged.finishMount (h : Tagged v) {w : Drive} (hops : w.d64ops = v.d64ops)
    (hpartition : ∀ q ≠ part, w.disk.partition q = v.disk.partition q)
    (hcache : w.disk.errorcache = v.disk.errorcache) {fsize : ℕ} {name : List UInt8} {it : ImageType} {p : Param}
    (hformat : imageFormat fsize name = some (it, p)) :
    Tagged { w.finishMount part it p with d64ops := Function.update (w.finishMount part it p).d64ops part true } := by
  have hset : ∀ q, (w.disk.setFormat part it p).partition q =
      if q = part then { w.disk.partition part with imagetype := it, d64data := p } else w.disk.partition q :=
    fun q => Function.update_apply _ _ _ q
  have hdisk : (w.finishMount part it p).disk.partition = (w.disk.setFormat part it p).partition := by
    rw [Drive.finishMount]
    dsimp only
    split <;> rfl
  refine h.replace part (fun q hq => ?_) (fun q hq => ?_) ?_ fun _ => ⟨?_, fun hinfo => ?_⟩
  · show Function.update w.d64ops part true q = v.d64ops q
    rw [Function.update_of_ne hq, hops]
  · show (w.finishMount part it p).disk.partition q = _
    rw [hdisk, hset, if_neg hq]
    exact hpartition q hq
  · show (w.finishMount part it p).disk.errorcache = v.disk.errorcache ∨
      (w.finishMount part it p).disk.errorcache.Unset
    rw [Drive.finishMount]
    dsimp only
    split
    · exact .inr (.inl rfl)
    · exact .inl hcache
  · show ((w.finishMount part it p).disk.partition part).Mounted
    rw [hdisk, hset, if_pos rfl]
    exact ⟨fsize, name, hformat⟩
  · have hinfo' : ((w.finishMount part it p).disk.partition part).imagetype.errorInfo = true := hinfo
    rw [hdisk, hset, if_pos rfl] at hinfo'
    show (w.finishMount part it p).disk.errorcache.Unset
    rw [Drive.finishMount]
    dsimp only
    rw [if_pos hinfo']
    exact .inl rfl

theorem openImage_partition {q : ℕ} (hq : q ≠ part) (s : State) (image : ℕ → UInt8) (writable : Bool) :
    (s.openImage part image writable).partition q = s.partition q :=
  Function.update_of_ne hq _ _

/-- A mount request. -/
theorem Tagged.mount (h : Tagged v) (hops : v.d64ops part = false) (fsize : ℕ) (name : List UInt8)
    (image : ℕ → UInt8) (writable : Bool) : Tagged (v.mountImage part fsize name image writable).2 := by
  have hnone : v.d64ops part = true → ∀ {P : Prop}, P := by
    intro htrue
    rw [hops] at htrue
    cases htrue
  rw [Drive.mountImage, Drive.d64Mount]
  dsimp only
  split
  · refine h.replace part (fun _ _ => rfl) (fun q hq => ?_) (.inl rfl) fun htrue => hnone htrue
    exact openImage_partition hq v.disk image writable
  · next it p hformat =>
    split
    · exact h.finishMount (w := { v with disk := v.disk.openImage part image writable }) rfl
        (fun q hq => openImage_partition hq v.disk image writable) rfl hformat
    · split
      · refine h.replace part (fun _ _ => rfl) (fun q hq => ?_) (.inl rfl) fun htrue => hnone htrue
        show Function.update (v.disk.openImage part image writable).partition part _ q = _
        rw [Function.update_of_ne hq]
        exact openImage_partition hq v.disk image writable
      · next b t _ =>
        exact h.finishMount (w := { v with
          table := t
          bam := true
          disk := { v.disk.openImage part image writable with bamBuffer := b } }) rfl
          (fun q hq => openImage_partition hq v.disk image writable) rfl hformat

/-- Each step keeps the cache unset or right. -/
theorem Tagged.step (h : Tagged v) {u : ErrorUse} (hu : ReadsErrors v u) : Tagged (u.step v).2 := by
  cases u with
  | mount part fsize name image writable =>
    have hleft : Tagged { v with d64ops := Function.update v.d64ops part false } := by
      refine h.replace part (fun q hq => Function.update_of_ne hq _ _) (fun _ _ => rfl) (.inl rfl) fun htrue => ?_
      have hfalse : Function.update v.d64ops (part : ℕ) false part = false := Function.update_self _ _ _
      cases hfalse.symm.trans htrue
    exact hleft.mount (Function.update_self _ _ _) fsize name image writable
  | read part track sector buf len error =>
    rw [ErrorUse.step]
    split
    · next hops => exact h.checkedRead part.isLt hops (hu hops) buf len error
    · exact h

/-- While no read of error info fails under the tag of another track, `checked_read` decides on each
sector as its byte in the error info of the image says, whatever is mounted and read before. -/
theorem errorInfo_decides {v : Drive} (hops : ∀ part, v.d64ops part = false) (hunset : v.disk.errorcache.Unset)
    (us : List ErrorUse) (hreads : Run.Meets ErrorUse.step ReadsErrors v us) :
    Run.Meets ErrorUse.step Decides v us := by
  have hstart : Tagged v := by
    refine ⟨fun part htrue => ?_, .inl hunset⟩
    rw [hops part] at htrue
    cases htrue
  refine Run.Meets.imp_of_step (I := Tagged) (fun v u h hu => h.step hu) (fun v u h hu => ?_) hstart hreads
  cases u with
  | mount part fsize name image writable => trivial
  | read part track sector buf len error =>
    intro hops hlook hloads
    exact (h.look part.isLt hops hlook (hu hops hlook)).2.2 hloads

/-- A drive with a BAM buffer, for which the coming accesses to image files are given. -/
def errorDrive (io : ℕ → Io) : Drive where
  table := ⟨6, fun _ => ⟨fun _ => 0, 0, false, false, false⟩, 0⟩
  disk :=
    { partition := fun _ => ⟨⟨.none, false⟩, d41param, fun _ => 0, false⟩
      maxPart := 1
      bamBuffer := ⟨255, 0, 0, false, fun _ => 0, 0⟩
      bamBuffer2 := none
      errorcache := ⟨0, 0, fun _ => 0⟩
      scratch := fun _ => 0
      error := ⟨0, 0, 0⟩
      io
      sysFree := fun _ => none }
  bam := true
  bamRefcount := 0
  d64ops _ := false

/-- A D41 image whose first sector is bad is mounted; a sector of track 1, of track 2 and of track 1
again is read. -/
def errorUses : List ErrorUse :=
  [.mount 0 175531 [] (fun o => if o = 174848 then 2 else 1) false, .read 0 1 0 (fun _ => 0) 256 66,
    .read 0 2 0 (fun _ => 0) 256 66, .read 0 1 0 (fun _ => 0) 256 66]

theorem errorInfo_decides_bad : Run.Meets ErrorUse.step Decides (errorDrive fun _ => .ok) errorUses := by
  refine errorInfo_decides (fun _ => rfl) (.inr rfl) errorUses ⟨trivial, ?_, ?_, ?_, trivial⟩
  all_goals exact fun _ _ _ => trivial

/-- The read of the error info of track 2 fails, and the first sector is good afterwards. -/
theorem errorInfo_not_decides :
    ¬∀ (v : Drive) (us : List ErrorUse), (∀ part, v.d64ops part = false) → v.disk.errorcache.Unset →
      Run.Meets ErrorUse.step Decides v us := by
  intro h
  have hmeets := h (errorDrive fun n => if n = 1 then .failed ⟨20, 2, 0⟩ fun _ => 1 else .ok) errorUses
    (fun _ => rfl) (.inr rfl)
  have hlast := hmeets.2.2.2.1 rfl ⟨by decide, by decide⟩ fun hmiss => absurd hmiss (by decide)
  revert hlast
  decide

end NoDiskEmu.Dxx
