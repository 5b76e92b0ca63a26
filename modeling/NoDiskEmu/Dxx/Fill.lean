import NoDiskEmu.Buffers.Talk
import NoDiskEmu.Dxx.Termination

/-! What `d64_read` leaves in the buffer for the talk loops, whatever the image holds and whichever
access to it fails. -/

namespace NoDiskEmu.Dxx

open Library

def FileBuffer.cursor (buf : FileBuffer) : Cursor where
  data := buf.data
  position := buf.position
  lastused := buf.lastused
  recordlen := 0
  mustflush := buf.mustflush
  read := buf.read
  write := false
  sendeoi := buf.sendeoi

/-- A buffer as `alloc_buffer` leaves it. -/
def FileBuffer.fresh (data : ℕ → UInt8) : FileBuffer where
  data
  position := 0
  lastused := 0
  sendeoi := false
  mustflush := false
  read := false
  part := 0
  track := 0
  sector := 0
  dh := ⟨0, 0, 0⟩
  blocks := 0
  freed := false

/-- `d64_raw_directory`. -/
def d64RawDirectory (part track sector : ℕ) (buf : FileBuffer) (s : State) : FileBuffer × State :=
  let link : ℕ → UInt8 := fun i => if i = 0 then .ofNat track
    else if (s.partition part).imagetype = ⟨.dnp, false⟩ then .ofNat sector else 0
  (d64Read { buf with data := Memory.write buf.data 0 2 link, part, read := true } s).2

variable {s : State} {part : ℕ} {buf : FileBuffer}

theorem loadErrors_image (s : State) (part track : ℕ) : (loadErrors s part track).2.image = s.image := by
  have hread : ∀ (t : State) (offset n : ℕ) (buf : ℕ → UInt8),
      (imageRead t part offset n buf).2.2.image = t.image := by
    intro t offset n buf
    rw [imageRead]
    split <;> rfl
  rw [loadErrors]
  dsimp only
  split
  · rfl
  · split
    · exact hread _ _ _ _
    · exact hread _ _ _ _

theorem checkErrors_image (s : State) (part track sector : ℕ) :
    (checkErrors s part track sector).2.image = s.image := by
  rw [checkErrors]
  split
  · dsimp only
    have hload : (if s.errorcache.part ≠ part ∨ s.errorcache.track ≠ track then loadErrors s part track
        else (0, s)).2.image = s.image := by
      split
      · exact loadErrors_image s part track
      · rfl
    generalize (if s.errorcache.part ≠ part ∨ s.errorcache.track ≠ track then loadErrors s part track
      else (0, s)) = l at hload ⊢
    split
    · exact hload
    · split
      · exact hload
      · split <;> exact hload
  · rfl

/-- A read that reports no error has read the sector. -/
theorem checkedRead_success {track sector len error : ℕ} {data : ℕ → UInt8}
    (h : (checkedRead s part track sector data len error).1 = 0) :
    (checkedRead s part track sector data len error).2.1 =
      Memory.write data 0 len fun i => s.image part (s.offset part track sector + i) := by
  rw [checkedRead] at h ⊢
  split at h
  · cases h
  · next hrange =>
    rw [if_neg hrange]
    dsimp only at h ⊢
    have himage := checkErrors_image s part track sector
    generalize checkErrors s part track sector = c at h himage ⊢
    split at h
    · cases h
    · next hok =>
      rw [if_neg hok]
      rw [imageRead] at h ⊢
      split at h
      · dsimp only
        rw [himage]
      · cases h
      · cases h

/-- `d64_read` leaves something to send unless the sector is the last one and says that it has no
bytes. -/
theorem d64Read_filled (h : (d64Read buf s).1 = 0) :
    let link := s.linkBytes buf.part ((buf.data 0).toNat, (buf.data 1).toNat)
    (d64Read buf s).2.1.lastused ≤ 255 ∧
      ((d64Read buf s).2.1.position ≤ (d64Read buf s).2.1.lastused ↔ ¬(link.1 = 0 ∧ link.2 < 2)) := by
  rw [d64Read] at h ⊢
  dsimp only at h ⊢
  split at h
  · cases h
  · next hok =>
    rw [if_neg hok]
    have hdata := checkedRead_success (not_not.mp hok)
    generalize checkedRead s buf.part (buf.data 0).toNat (buf.data 1).toNat buf.data 256
      ERROR_ILLEGAL_TS_LINK = r at hdata ⊢
    have hbyte : ∀ i < 2, r.2.1 i =
        s.image buf.part (s.offset buf.part (buf.data 0).toNat (buf.data 1).toNat + i) := by
      intro i hi
      rw [hdata, Memory.write_zero (by omega)]
    have hfirst : (s.linkBytes buf.part ((buf.data 0).toNat, (buf.data 1).toNat)).1 = (r.2.1 0).toNat := by
      rw [hbyte 0 (by decide)]
      rfl
    have hsecond : (s.linkBytes buf.part ((buf.data 0).toNat, (buf.data 1).toNat)).2 = (r.2.1 1).toNat := by
      rw [hbyte 1 (by decide)]
      rfl
    rw [hfirst, hsecond]
    split
    · next hzero =>
      have hlt := (r.2.1 1).toNat_lt
      refine ⟨show (r.2.1 1).toNat ≤ 255 by omega, ?_⟩
      show 2 ≤ (r.2.1 1).toNat ↔ _
      have hlink : (r.2.1 0).toNat = 0 := congrArg UInt8.toNat hzero
      constructor
      · intro htwo hlast
        omega
      · intro hlast
        by_contra htwo
        exact hlast ⟨hlink, by omega⟩
    · next hzero =>
      refine ⟨le_refl 255, iff_of_true (show 2 ≤ 255 by decide) fun hlast => hzero ?_⟩
      exact UInt8.toNat_inj.mp hlast.1

theorem d64Read_freed (h : (d64Read buf s).2.1.freed = false) : (d64Read buf s).1 = 0 := by
  rw [d64Read] at h ⊢
  dsimp only at h ⊢
  split at h
  · cases h
  · next hok =>
    rw [if_neg hok]
    split <;> rfl

theorem readEntry_success {dh : D64dh} (h : (readEntry s part dh).1 = 0) :
    readEntry s part dh = (0, s.nextIo.setScratch
      (Memory.write s.scratch 0 32 fun i => s.image part (entryOffset s part dh + i))) := by
  rw [readEntry, imageRead] at h ⊢
  dsimp only at h ⊢
  split at h
  · rfl
  · cases h
  · cases h

/-- The link that `d64_open_read` follows is the one of the directory entry. -/
theorem d64OpenRead_filled {dh : D64dh} {data : ℕ → UInt8}
    (hread : (d64OpenRead part dh (.fresh data) s).1.read = true)
    (hfreed : (d64OpenRead part dh (.fresh data) s).1.freed = false) :
    let buf := (d64OpenRead part dh (.fresh data) s).1
    let link := s.linkBytes part (fileStart s part dh)
    buf.lastused ≤ 255 ∧ (buf.position ≤ buf.lastused ↔ ¬(link.1 = 0 ∧ link.2 < 2)) := by
  rw [d64OpenRead] at hread hfreed ⊢
  dsimp only at hread hfreed ⊢
  split at hread
  · cases hread
  · next hok =>
    rw [if_neg hok] at hfreed ⊢
    rw [readEntry_success (not_not.mp hok)] at hfreed ⊢
    have hfilled := d64Read_filled (d64Read_freed hfreed)
    exact hfilled

theorem d64RawDirectory_filled {track sector : UInt8} {data : ℕ → UInt8}
    (hfreed : (d64RawDirectory part track.toNat sector.toNat (.fresh data) s).1.freed = false) :
    let buf := (d64RawDirectory part track.toNat sector.toNat (.fresh data) s).1
    let link := s.linkBytes part (track.toNat,
      if (s.partition part).imagetype = ⟨.dnp, false⟩ then sector.toNat else 0)
    buf.lastused ≤ 255 ∧ (buf.position ≤ buf.lastused ↔ ¬(link.1 = 0 ∧ link.2 < 2)) := by
  have hlink : ((UInt8.ofNat track.toNat).toNat,
      (if (s.partition part).imagetype = ⟨.dnp, false⟩ then UInt8.ofNat sector.toNat else 0).toNat) =
      (track.toNat, if (s.partition part).imagetype = ⟨.dnp, false⟩ then sector.toNat else 0) := by
    rw [UInt8.ofNat_toNat, UInt8.ofNat_toNat]
    split <;> rfl
  have hfilled := d64Read_filled (d64Read_freed hfreed)
  rw [← hlink]
  exact hfilled

end NoDiskEmu.Dxx
