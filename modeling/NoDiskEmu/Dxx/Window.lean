import NoDiskEmu.Dxx.Direct

/-! What the calls on the BAM leave behind, whether their accesses fail or not. -/

namespace NoDiskEmu.Dxx

open Library

variable {s s' s₀ : State} {part track sector : ℕ} {data : BamData}

/-! ### What no call on the BAM changes -/

theorem SameFormat.refl (s : State) : SameFormat s s := ⟨fun _ => rfl, fun _ => rfl, rfl⟩

theorem SameFormat.congr (h : SameFormat s₀ s) (hp : s'.partition = s.partition)
    (hmax : s'.maxPart = s.maxPart) : SameFormat s₀ s' :=
  ⟨fun p => by rw [hp, h.imagetype], fun p => by rw [hp, h.d64data], hmax.trans h.maxPart⟩

theorem imageRead_sameFormat (s : State) (part off bytes : ℕ) (buf : ℕ → UInt8) :
    SameFormat s (imageRead s part off bytes buf).2.2 := by
  rw [imageRead]
  split <;> exact (SameFormat.refl s).congr rfl rfl

theorem imageWrite_sameFormat (s : State) (part off bytes : ℕ) (data : ℕ → UInt8) :
    SameFormat s (imageWrite s part off bytes data).2 := by
  have hset := fun image => (State.setImage_sameMeta s part image).toSameFormat
  rw [imageWrite]
  split <;> exact (hset _).congr rfl rfl

theorem flushBam_sameFormat (s : State) : SameFormat s (flushBam s).2 := by
  rw [flushBam, bamBufferFlush]
  split
  · exact (imageWrite_sameFormat s _ _ _ _).congr rfl rfl
  · exact SameFormat.refl s

theorem loadBam_sameFormat (s : State) (part track sector : ℕ) :
    SameFormat s (loadBam s part track sector).2 := by
  have hflush := flushBam_sameFormat s
  rw [loadBam]
  dsimp only
  split
  · exact hflush
  · have hread := hflush.trans (imageRead_sameFormat (flushBam s).2 part
      ((flushBam s).2.offset part track sector) 256 (flushBam s).2.bamBuffer.data)
    split <;> exact hread.congr rfl rfl

theorem chooseBam_sameFormat (s : State) : SameFormat s (chooseBam s) := by
  have hswap : ∀ s, SameFormat s (bamBufferSwap s) := fun s => by
    rw [bamBufferSwap]
    split <;> exact (SameFormat.refl s).congr rfl rfl
  have halloc : SameFormat s (bamBufferAlloc2 s).2 := by
    rw [bamBufferAlloc2]
    dsimp only
    split <;> exact (SameFormat.refl s).congr rfl rfl
  rw [chooseBam]
  split
  · exact hswap s
  · split
    · dsimp only
      split
      · exact halloc.congr rfl rfl
      · exact halloc.trans (hswap _)
    · exact SameFormat.refl s

theorem moveBamWindow_sameFormat (s : State) (part track : ℕ) (data : BamData) :
    SameFormat s (moveBamWindow s part track data).2.2 := by
  rw [moveBamWindow]
  dsimp only
  split
  · exact SameFormat.refl s
  · split
    · exact chooseBam_sameFormat s
    · exact (chooseBam_sameFormat s).trans (loadBam_sameFormat _ _ _ _)

theorem isFree_sameFormat (s : State) (part track sector : ℕ) :
    SameFormat s (isFree s part track sector).2 := by
  rw [isFree]
  dsimp only
  split <;> exact moveBamWindow_sameFormat s part track .bitfield

theorem sectorsFree_sameFormat (s : State) (part track : ℕ) :
    SameFormat s (sectorsFree s part track).2 := by
  rw [sectorsFree]
  split
  · exact SameFormat.refl s
  · dsimp only
    split <;> exact moveBamWindow_sameFormat s part track .freecount

theorem adjustCount_sameFormat (s : State) (part track : ℕ) (setCount : UInt8 → Option UInt8) :
    SameFormat s (adjustCount s part track setCount).2 := by
  rw [adjustCount]
  split
  · exact moveBamWindow_sameFormat s part track .freecount
  · split <;> exact (moveBamWindow_sameFormat s part track .freecount).congr rfl rfl

theorem flipSector_sameFormat (s : State) (part track sector : ℕ) (setBit : UInt8 → UInt8 → UInt8)
    (setCount : UInt8 → Option UInt8) :
    SameFormat s (flipSector s part track sector setBit setCount).2 := by
  have hmove := moveBamWindow_sameFormat s part track .bitfield
  rw [flipSector]
  dsimp only
  split
  · exact hmove
  · split
    · exact hmove.congr rfl rfl
    · refine SameFormat.trans ?_ (adjustCount_sameFormat _ _ _ _)
      exact hmove.congr rfl rfl

/-- The formats of the images stay, also where a link leads off the disk. -/
theorem freeSector_sameFormat (s : State) (part track sector : ℕ) :
    SameFormat s (freeSector s part track sector).2 := by
  have hfree := isFree_sameFormat s part track sector
  rw [freeSector]
  split
  · exact hfree
  · split
    · exact hfree.trans (flipSector_sameFormat _ _ _ _ _ _)
    · exact hfree

theorem allocateSector_sameFormat (s : State) (part track sector : ℕ) :
    SameFormat s (allocateSector s part track sector).2 := by
  have hfree := isFree_sameFormat s part track sector
  rw [allocateSector]
  split
  · exact hfree
  · split
    · exact hfree.trans (flipSector_sameFormat _ _ _ _ _ _)
    · exact hfree

/-! ### What the BAM window shows -/

theorem moveBamWindow_of_match (h : bamBufferMatch s.bamBuffer part (bamPosition (s.type part) track data).1
    (bamPosition (s.type part) track data).2.1 = true) :
    moveBamWindow s part track data = (0, (bamPosition (s.type part) track data).2.2, s) := by
  rw [moveBamWindow]
  exact if_pos h

theorem loadBam_match (s : State) (part track sector : ℕ)
    (hno : ¬bamBufferMatch s.bamBuffer part track sector = true) :
    bamBufferMatch (loadBam s part track sector).2.bamBuffer part track sector = true ↔
      (loadBam s part track sector).1 = 0 := by
  -- a flush keeps the tag of the buffer
  have htag : ∀ b : BamBuffer, bamBufferMatch (bamBufferFlush s b).2.1 part track sector =
      bamBufferMatch b part track sector := by
    intro b
    rw [bamBufferFlush]
    split <;> rfl
  have hflush : ¬bamBufferMatch (flushBam s).2.bamBuffer part track sector = true := by
    rwa [show bamBufferMatch (flushBam s).2.bamBuffer part track sector =
      bamBufferMatch s.bamBuffer part track sector from htag s.bamBuffer]
  rw [loadBam]
  dsimp only
  split
  · exact iff_of_false hflush (show ¬(1 : ℕ) = 0 by decide)
  · split
    · next hread => exact iff_of_false hflush hread
    · exact iff_of_true (bamBufferMatch_iff.mpr ⟨rfl, rfl, rfl⟩) rfl

/-- `move_bam_window` succeeds exactly if `bam_buffer` has the sector afterwards. -/
theorem moveBamWindow_match (s : State) (part track : ℕ) (data : BamData) :
    bamBufferMatch (moveBamWindow s part track data).2.2.bamBuffer part
        (bamPosition (s.type part) track data).1 (bamPosition (s.type part) track data).2.1 = true ↔
      (moveBamWindow s part track data).1 = 0 := by
  rw [moveBamWindow]
  dsimp only
  split
  · next hmatch => exact iff_of_true hmatch rfl
  · split
    · next hmatch => exact iff_of_true hmatch rfl
    · next hno => exact loadBam_match _ _ _ _ hno

theorem moveBamWindow_pos (s : State) (part track : ℕ) (data : BamData) :
    (moveBamWindow s part track data).2.1 = (bamPosition (s.type part) track data).2.2 := by
  rw [moveBamWindow]
  dsimp only
  split
  · rfl
  · split <;> rfl

theorem isFree_snd (s : State) (part track sector : ℕ) :
    (isFree s part track sector).2 = (moveBamWindow s part track .bitfield).2.2 := by
  rw [isFree]
  dsimp only
  split <;> rfl

theorem isFree_of_match (h : bamBufferMatch s.bamBuffer part (bamPosition (s.type part) track .bitfield).1
    (bamPosition (s.type part) track .bitfield).2.1 = true) (sector : ℕ) :
    isFree s part track sector =
      (if Bits.test (s.bamBuffer.data ((bamPosition (s.type part) track .bitfield).2.2 + sector / 8))
        (sectorMask (s.isDnp part) sector) then 1 else 0, s) := by
  rw [isFree, moveBamWindow_of_match h]
  rfl

/-- The BAM sector with the bit of a sector is in `bam_buffer`, and the bit is set. -/
def Shows (s : State) (part track sector : ℕ) : Prop := isFree s part track sector = (1, s)

/-- What `is_free` has found free can be read without another access; otherwise the bit is not set
in `bam_buffer`, or the buffer has another sector. -/
theorem shows_isFree (s : State) (part track sector : ℕ) :
    Shows (isFree s part track sector).2 part track sector ↔ 0 < (isFree s part track sector).1 := by
  have hformat := isFree_sameFormat s part track sector
  have hmatch := moveBamWindow_match s part track .bitfield
  have hpos := moveBamWindow_pos s part track .bitfield
  have hdnp : (isFree s part track sector).2.isDnp part = s.isDnp part := by
    rw [State.isDnp, hformat.imagetype]
    rfl
  have hstate := isFree_snd s part track sector
  by_cases hok : (moveBamWindow s part track .bitfield).1 = 0
  · have hmatch' : bamBufferMatch (isFree s part track sector).2.bamBuffer part
        (bamPosition ((isFree s part track sector).2.type part) track .bitfield).1
        (bamPosition ((isFree s part track sector).2.type part) track .bitfield).2.1 = true := by
      rw [hformat.type, hstate]
      exact hmatch.mpr hok
    rw [Shows, isFree_of_match hmatch' sector, hformat.type, hdnp, hstate, isFree]
    dsimp only
    rw [if_neg (not_not.mpr hok), hpos]
    split
    · exact iff_of_true rfl (show (0 : ℤ) < 1 by decide)
    · exact iff_of_false (by simp) (show ¬(0 : ℤ) < 0 by decide)
  · refine iff_of_false (fun hshows => hok ?_) ?_
    · -- the bit could not be read without the BAM sector
      have hagain : (moveBamWindow (isFree s part track sector).2 part track .bitfield).1 = 0 := by
        by_contra hfail
        rw [Shows, isFree] at hshows
        dsimp only at hshows
        rw [if_pos hfail] at hshows
        cases hshows
      have hsame : (moveBamWindow (isFree s part track sector).2 part track .bitfield).2.2 =
          (isFree s part track sector).2 := by
        rw [Shows] at hshows
        have hsnd := congrArg Prod.snd hshows
        rw [isFree] at hsnd
        dsimp only at hsnd
        rwa [if_neg (not_not.mpr hagain)] at hsnd
      have hhas := (moveBamWindow_match (isFree s part track sector).2 part track .bitfield).mpr hagain
      rw [hsame, hformat.type, hstate] at hhas
      exact hmatch.mp hhas
    · rw [isFree]
      dsimp only
      rw [if_pos hok]
      exact show ¬(0 : ℤ) < -1 by decide

end NoDiskEmu.Dxx
