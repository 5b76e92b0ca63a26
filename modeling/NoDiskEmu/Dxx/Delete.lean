import NoDiskEmu.Dxx.Termination
import NoDiskEmu.Dxx.Window

/-! Scratching a file: its sectors are freed while its links are followed. -/

namespace NoDiskEmu.Dxx

open Library

variable {s s' s₀ : State} {part : ℕ}

/-! ### Outside the BAM -/

/-- The offset lies in a BAM sector. -/
def InBam (type : DxxType) (o : ℕ) : Prop :=
  ∃ t q, IsBamSector type t q ∧ sectorOffset type t q ≤ o ∧ o < sectorOffset type t q + 256

/-- Outside its BAM sectors an image is seen as it is. -/
theorem view_outside (hs : Coherent s) {o : ℕ} (ho : ¬InBam (s.type part) o) :
    s.view part o = s.image part o := by
  have hpatch : ∀ b, s.HasBuffer b → ∀ images, patch s.type b images part o = images part o := by
    intro b hb images
    by_cases hm : b.mustflush = true
    · have hok := hs.bufferOk hb
      have hvalid : b.part ≠ 255 := fun h255 => by simp [hok.empty h255] at hm
      simp only [patch, hm, if_true]
      by_cases hpart : b.part = part
      · subst hpart
        have hout : o < sectorOffset (s.type b.part) b.track b.sector ∨
            sectorOffset (s.type b.part) b.track b.sector + 256 ≤ o := by
          by_contra hin
          exact ho ⟨b.track, b.sector, hok.bam hvalid, by omega, by omega⟩
        rw [Function.update_self, Memory.write_outside hout]
      · rw [Function.update_of_ne (Ne.symm hpart)]
    · rw [patch_clean (by simpa using hm)]
  rw [State.view_eq, hpatch _ (.inl rfl), State.behind]
  cases hsecond : s.bamBuffer2 with
  | none => rfl
  | some b => exact hpatch b (.inr hsecond) _

variable {p : Partition} {track sector : ℕ}

/-- Freeing a sector changes the byte of its bit and the counter of its track. -/
theorem Partition.freeSector_bytes {o : ℕ} (h : (p.freeSector track sector).image o ≠ p.image o) :
    o = p.bitAddress track sector ∨ ¬p.isDnp = true ∧ o = p.bamAddress track .freecount := by
  by_contra hnot
  push Not at hnot
  obtain ⟨hbit, hcount⟩ := hnot
  have hset : ∀ value, (p.setByte (p.bitAddress track sector) value).image o = p.image o :=
    fun value => Function.update_of_ne hbit _ _
  refine h ?_
  rw [Partition.freeSector]
  split
  · rfl
  · rw [Partition.flipSector]
    split
    · exact hset _
    · next hdnp =>
      rw [Partition.adjustCount]
      split
      · exact hset _
      · exact (Function.update_of_ne (hcount hdnp) _ _).trans (hset _)

theorem Partition.bamAddress_inBam (hle : track ≤ 255) {data : BamData} {i : ℕ}
    (hpos : (bamPosition p.imagetype.type track data).2.2 + i < 256) :
    InBam p.imagetype.type (p.bamAddress track data + i) := by
  refine ⟨_, _, isBamSector_bamPosition p.imagetype.type hle data, ?_, ?_⟩ <;>
    (rw [Partition.bamAddress]; omega)

/-- Freeing a sector changes BAM sectors only. -/
theorem Partition.freeSector_outside (hle : track ≤ 255)
    (hpos : (bamPosition p.imagetype.type track .bitfield).2.2 + sector / 8 < 256) {o : ℕ}
    (ho : ¬InBam p.imagetype.type o) : (p.freeSector track sector).image o = p.image o := by
  by_contra hne
  rcases Partition.freeSector_bytes hne with rfl | ⟨-, rfl⟩
  · exact ho (Partition.bamAddress_inBam hle hpos)
  · have hcount := (bamPosition_freecount p.imagetype.type track).1
    exact ho (Partition.bamAddress_inBam (i := 0) hle hcount)

/-! ### The loop -/

/-- A state that the rounds of the loop lead to. -/
structure Freeing (s₀ : State) (part : ℕ) (s : State) : Prop where
  coherent : Coherent s
  format : SameFormat s₀ s
  cached : s.Cached part
  outside : ∀ o, ¬InBam (s₀.type part) o → s.image part o = s₀.image part o

theorem errorByte_outside (hformat : SameFormat s₀ s) (hm : (s₀.partition part).Mounted)
    (houtside : ∀ o, ¬InBam (s₀.type part) o → s.image part o = s₀.image part o)
    (hinfo : (s₀.partition part).imagetype.errorInfo = true) (track sector : ℕ) :
    s.errorByte part track sector = s₀.errorByte part track sector := by
  rw [State.errorByte, State.errorByte, hformat.type]
  refine congrArg UInt8.toNat (houtside _ ?_)
  rintro ⟨t, q, hbam, hlow, hhigh⟩
  have hend := bamSector_lt_errorOffset hbam (hm.errorInfo hinfo)
  omega

theorem Freeing.readable (h : Freeing s₀ part s) (hm : (s₀.partition part).Mounted) (x : ℕ × ℕ) :
    s.Readable part x ↔ s₀.Readable part x := by
  rw [State.Readable, State.Readable, h.format.type, h.format.lastTrack, h.format.imagetype]
  refine and_congr_right fun _ => forall_congr' fun hinfo => ?_
  rw [errorByte_outside h.format hm h.outside hinfo]

theorem not_inBam_of_valid (hm : p.Mounted) {x : ℕ × ℕ}
    (hv : ValidTS p.imagetype.type p.d64data.lastTrack x.1 x.2)
    (hbam : ¬IsBamSector p.imagetype.type x.1 x.2) {i : ℕ} (hi : i < 256) :
    ¬InBam p.imagetype.type (sectorOffset p.imagetype.type x.1 x.2 + i) := by
  rintro ⟨t, q, hsector, hlow, hhigh⟩
  have hlba : sectorLba p.imagetype.type x.1 x.2 = sectorLba p.imagetype.type t q := by
    simp only [sectorOffset] at hlow hhigh
    omega
  obtain ⟨rfl, rfl⟩ := bamSector_apart hm hv hsector hlba
  exact hbam hsector

theorem Freeing.freeSector (h : Freeing s₀ part s) (hm : (s₀.partition part).Mounted)
    (hr : InBuffer s₀ part track sector) : Freeing s₀ part (freeSector s part track sector).2 := by
  have hr' := hr.sameFormat h.format
  obtain ⟨s', hfree, hbecomes⟩ := freeSector_ok h.coherent hr'
  have hformat := h.format.trans hbecomes.toSameFormat
  have himage : ∀ o, ¬InBam (s₀.type part) o → s'.image part o = s.image part o := by
    intro o ho
    have ho' : ¬InBam (s.type part) o := by rwa [h.format.type]
    have ho'' : ¬InBam (s'.type part) o := by rwa [hformat.type]
    rw [← view_outside hbecomes.coherent ho'', ← view_outside h.coherent ho']
    have hview : s'.view part = ((s.through part).freeSector track sector).image :=
      congrArg Partition.image hbecomes.through_self
    rw [hview]
    exact Partition.freeSector_outside (p := s.through part) hr'.le hr'.pos ho'
  have houtside : ∀ o, ¬InBam (s₀.type part) o → s'.image part o = s₀.image part o :=
    fun o ho => (himage o ho).trans (h.outside o ho)
  rw [hfree]
  refine ⟨hbecomes.coherent, hformat, fun hinfo hpart q hq => ?_, houtside⟩
  have hinfo₀ : (s₀.partition part).imagetype.errorInfo = true := by rwa [hformat.imagetype] at hinfo
  rw [errorByte_outside hformat hm houtside hinfo₀,
    ← errorByte_outside h.format hm h.outside hinfo₀]
  rw [hformat.type, hbecomes.errorcache] at hq
  rw [hbecomes.errorcache] at hpart ⊢
  refine h.cached (by rwa [h.format.imagetype]) hpart q ?_
  rwa [h.format.type]

/-! ### Links in BAM sectors -/

/-- The first two bytes of the sector are bits of the BAM. -/
def HoldsBits : DxxType → ℕ × ℕ → Prop
  | .d71, x => x.1 = 53 ∧ x.2 = 0
  | .dnp, x => x.1 = 1 ∧ 3 ≤ x.2 ∧ x.2 < 34
  | _, _ => False

/-- Apart from these sectors no link is made of bits or counters of sectors on the disk. -/
theorem bamPosition_link (hm : p.Mounted) (hv : ValidTS p.imagetype.type p.d64data.lastTrack track sector) {y : ℕ × ℕ}
    (hno : ¬HoldsBits p.imagetype.type y) (data : BamData) {k : ℕ}
    (heq : ((bamPosition p.imagetype.type track data).1, (bamPosition p.imagetype.type track data).2.1) = y) :
    2 ≤ (bamPosition p.imagetype.type track data).2.2 + k := by
  have hlast := hm.lastTrack
  obtain ⟨h1, h2, h3⟩ := hv
  subst heq
  cases ht : p.imagetype.type <;> simp only [ht] at hlast hno ⊢ <;> simp only [bamPosition, HoldsBits] at hno ⊢
  case dnp =>
    by_contra hlow
    refine hno ⟨trivial, ?_, ?_⟩ <;> omega
  case d41 | none =>
    rw [Nat.mod_eq_of_lt (by cases data <;> simp only [BamData.skip] <;> omega)]
    omega
  case d71 =>
    by_cases h35 : track > 35
    · cases data with
      | bitfield => exact absurd ⟨by simp [h35], by simp [h35]⟩ hno
      | freecount =>
        simp only [h35, reduceCtorEq, and_false, ↓reduceIte]
        rw [Nat.mod_eq_of_lt (by omega)]
        omega
    · simp only [h35, false_and, ↓reduceIte]
      rw [Nat.mod_eq_of_lt (by cases data <;> simp only [BamData.skip] <;> omega)]
      omega
  case d81 =>
    split_ifs
    all_goals
      rw [Nat.mod_eq_of_lt (by cases data <;> simp only [BamData.skip] <;> omega)]
      omega
  case d80 | d82 =>
    have hw := d80Window_spec track 0 track h1 (by omega)
    rw [Nat.mod_eq_of_lt (by cases data <;> simp only [BamData.skip] <;> omega)]
    omega

/-- A link that is not made of BAM bits lies apart from the bits and counters of the sectors. -/
theorem link_apart (hm : p.Mounted) (hv : ValidTS p.imagetype.type p.d64data.lastTrack track sector)
    {y : ℕ × ℕ} (hy : ValidTS p.imagetype.type p.d64data.lastTrack y.1 y.2)
    (hno : ¬HoldsBits p.imagetype.type y) (data : BamData) {k : ℕ}
    (hk : (bamPosition p.imagetype.type track data).2.2 + k < 256) {i : ℕ} (hi : i < 2) :
    sectorOffset p.imagetype.type y.1 y.2 + i ≠ p.bamAddress track data + k := by
  intro heq
  rw [Partition.bamAddress] at heq
  have hlba : sectorLba p.imagetype.type y.1 y.2 = sectorLba p.imagetype.type
      (bamPosition p.imagetype.type track data).1 (bamPosition p.imagetype.type track data).2.1 := by
    simp only [sectorOffset] at heq
    omega
  obtain ⟨ht, hq⟩ := bamSector_apart hm hy (bamPosition_isBamSector hm hv.2.1 data) hlba
  have hlow := bamPosition_link hm hv hno data (k := k) (Prod.ext ht.symm hq.symm)
  simp only [sectorOffset] at heq
  omega

/-- A byte that a buffer is written back to does not depend on the image behind it. -/
theorem patch_or (type : ℕ → DxxType) (b : BamBuffer) (images images' : ℕ → ℕ → UInt8) (i o : ℕ) :
    patch type b images i o = images i o ∨ patch type b images i o = patch type b images' i o := by
  rw [patch, patch]
  split
  · by_cases hpart : i = b.part
    · subst hpart
      rw [Function.update_self, Function.update_self]
      by_cases ho : sectorOffset (type b.part) b.track b.sector ≤ o ∧
          o < sectorOffset (type b.part) b.track b.sector + 256
      · obtain ⟨k, rfl⟩ := Nat.exists_eq_add_of_le ho.1
        rw [Memory.write_inside (by omega), Memory.write_inside (by omega)]
        exact .inr rfl
      · exact .inl (Memory.write_outside (by omega))
    · exact .inl (by rw [Function.update_of_ne hpart])
  · exact .inl rfl

theorem chooseBam_partition (s : State) : (chooseBam s).partition = s.partition := by
  have hswap : ∀ s : State, (bamBufferSwap s).partition = s.partition := fun s => by
    rw [bamBufferSwap]
    split <;> rfl
  have halloc : (bamBufferAlloc2 s).2.partition = s.partition := by
    rw [bamBufferAlloc2]
    dsimp only
    split <;> rfl
  rw [chooseBam]
  split
  · exact hswap s
  · split
    · dsimp only
      split
      · exact halloc
      · exact (hswap _).trans halloc
    · rfl

/-- A byte of an image that is seen as it is. -/
def Steady (s : State) (i o : ℕ) (v : UInt8) : Prop := s.view i o = v ∧ s.image i o = v

theorem Steady.window {i o : ℕ} {v : UInt8} (h : Steady s i o v) (hs : Coherent s) (hlt : part < s.maxPart)
    (hle : track ≤ 255) (data : BamData) : Steady (moveBamWindow s part track data).2.2 i o v := by
  obtain ⟨s', hmove, hw⟩ := moveBamWindow_window hs hlt hle data
  refine ⟨by rw [hmove, hw.view]; exact h.1, ?_⟩
  obtain ⟨hco, hkeep⟩ := chooseBam_ok hs
  have himage : (chooseBam s).image = s.image := by
    unfold State.image
    rw [chooseBam_partition]
  rw [moveBamWindow]
  dsimp only
  split
  · exact h.2
  · split
    · rw [himage]
      exact h.2
    · -- a flush puts what is seen in the image
      obtain ⟨s1, hf, hmeta, hflushed, -, -⟩ := bamBufferFlush_ok hco hco.first
      have hio : ({ s1 with bamBuffer := { (chooseBam s).bamBuffer with mustflush := false } } : State).NoFault :=
        hmeta.noFault hco.noFault
      have hload : (loadBam (chooseBam s) part (bamPosition (s.type part) track data).1
          (bamPosition (s.type part) track data).2.1).2.image = s1.image := by
        rw [loadBam, flushBam, hf]
        dsimp only
        rw [if_neg (not_not.mpr rfl), imageRead_ok hio]
        rfl
      rw [hload, hflushed]
      rcases patch_or (chooseBam s).type (chooseBam s).bamBuffer (chooseBam s).image (chooseBam s).behind i o
        with heq | heq
      · rw [heq, himage]
        exact h.2
      · rw [heq, ← State.view_eq, hkeep.view]
        exact h.1

theorem Steady.setByte {i o : ℕ} {v : UInt8} (h : Steady s i o v) {s1 : State} {pos address : ℕ} {value : UInt8}
    (hset : Becomes s (setBamByte s1 pos value) part ((s.through part).setByte address value))
    (himage : s1.image i o = v) (hne : i = part → o ≠ address) : Steady (setBamByte s1 pos value) i o v := by
  refine ⟨?_, himage⟩
  have hview : (setBamByte s1 pos value).view i = ((setBamByte s1 pos value).through i).image := rfl
  rw [hview, hset.through]
  by_cases hi : i = part
  · subst hi
    rw [Function.update_self]
    exact (Function.update_of_ne (hne rfl) _ _).trans h.1
  · rw [Function.update_of_ne hi]
    exact h.1

theorem Steady.adjustCount {i o : ℕ} {v : UInt8} (h : Steady s i o v) (hs : Coherent s)
    (hr : InBuffer s part track sector) (hne : i = part → o ≠ (s.through part).bamAddress track .freecount)
    (setCount : UInt8 → Option UInt8) : Steady (adjustCount s part track setCount).2 i o v := by
  have hmoved := h.window hs hr.lt hr.le .freecount
  obtain ⟨s1, hmove, hw⟩ := moveBamWindow_window hs hr.lt hr.le .freecount
  rw [hmove] at hmoved
  rw [Dxx.adjustCount, hmove]
  dsimp only
  rw [if_neg (not_not.mpr rfl)]
  split
  · exact hmoved
  · exact h.setByte (hw.write 0 _ (bamPosition_freecount _ _).1) hmoved.2 hne

/-- Changing the state of a sector leaves other bytes alone, both in the image and as it is seen. -/
theorem Steady.flipSector {i o : ℕ} {v : UInt8} (h : Steady s i o v) (hs : Coherent s)
    (hr : InBuffer s part track sector) (hbit : i = part → o ≠ (s.through part).bitAddress track sector)
    (hcount : i = part → ¬s.isDnp part = true → o ≠ (s.through part).bamAddress track .freecount)
    (setBit : UInt8 → UInt8 → UInt8) (setCount : UInt8 → Option UInt8) :
    Steady (flipSector s part track sector setBit setCount).2 i o v := by
  have hmoved := h.window hs hr.lt hr.le .bitfield
  obtain ⟨s1, hmove, hw⟩ := moveBamWindow_window hs hr.lt hr.le .bitfield
  rw [hmove] at hmoved
  have hset := hw.write _ (setBit (s1.bamBuffer.data ((bamPosition (s.type part) track .bitfield).2.2 + sector / 8))
    (sectorMask (s.isDnp part) sector)) hr.pos
  have hsettled := h.setByte hset hmoved.2 hbit
  rw [Dxx.flipSector, hmove]
  dsimp only
  rw [if_neg (not_not.mpr rfl)]
  split
  · exact hsettled
  · next hdnp =>
    refine hsettled.adjustCount hset.coherent (hr.sameFormat hset.toSameFormat) (fun hi => ?_) setCount
    rw [hset.through_self]
    exact hcount hi hdnp

theorem Steady.isFree {i o : ℕ} {v : UInt8} (h : Steady s i o v) (hs : Coherent s)
    (hr : InBuffer s part track sector) (hbit : i = part → o ≠ (s.through part).bitAddress track sector)
    (hcount : i = part → ¬s.isDnp part = true → o ≠ (s.through part).bamAddress track .freecount) :
    Steady (isFree s part track sector).2 i o v ∧ ∀ setBit setCount,
      Steady (Dxx.flipSector (Dxx.isFree s part track sector).2 part track sector setBit setCount).2 i o v := by
  have hmoved : Steady (Dxx.isFree s part track sector).2 i o v := by
    rw [isFree_snd]
    exact h.window hs hr.lt hr.le .bitfield
  refine ⟨hmoved, fun setBit setCount => ?_⟩
  obtain ⟨s1, hfree, hco, hkeep⟩ := isFree_ok hs hr
  rw [hfree] at hmoved ⊢
  refine hmoved.flipSector hco (hr.sameFormat hkeep.toSameFormat) (fun hi => ?_) (fun hi hdnp => ?_) setBit setCount
  · rw [hkeep.through]
    exact hbit hi
  · rw [hkeep.through]
    rw [State.isDnp, hkeep.imagetype] at hdnp
    exact hcount hi hdnp

/-- A link that freeing sectors leaves alone: it is not made of BAM bits, and it is seen as `s₀` has it
on the disk. -/
structure Fixed (s₀ : State) (part : ℕ) (s : State) (y : ℕ × ℕ) : Prop where
  noBits : ¬HoldsBits (s₀.type part) y
  settled : ∀ i < 2, Steady s part (s₀.offset part y.1 y.2 + i) (s₀.image part (s₀.offset part y.1 y.2 + i))

theorem Fixed.window {y : ℕ × ℕ} (h : Fixed s₀ part s y) (hs : Coherent s) {i : ℕ} (hlt : i < s.maxPart)
    (hle : track ≤ 255) (data : BamData) : Fixed s₀ part (moveBamWindow s i track data).2.2 y :=
  ⟨h.noBits, fun k hk => (h.settled k hk).window hs hlt hle data⟩

/-- The states that the operations on a sector of any partition lead to. -/
theorem Fixed.isFree {y : ℕ × ℕ} (h : Fixed s₀ part s y) (hs : Coherent s) (hformat : SameFormat s₀ s) {i : ℕ}
    (hr : InRange s₀ i track sector) (hy : ValidTS (s₀.type part) (s₀.lastTrack part) y.1 y.2) :
    Fixed s₀ part (isFree s i track sector).2 y ∧ ∀ setBit setCount,
      Fixed s₀ part (flipSector (Dxx.isFree s i track sector).2 i track sector setBit setCount).2 y := by
  have hsettled : ∀ k < 2, Steady (Dxx.isFree s i track sector).2 part (s₀.offset part y.1 y.2 + k)
      (s₀.image part (s₀.offset part y.1 y.2 + k)) ∧ ∀ setBit setCount,
      Steady (flipSector (Dxx.isFree s i track sector).2 i track sector setBit setCount).2 part
        (s₀.offset part y.1 y.2 + k) (s₀.image part (s₀.offset part y.1 y.2 + k)) := by
    intro k hk
    refine (h.settled k hk).isFree hs (hr.inBuffer.sameFormat hformat) ?_ ?_
    · rintro rfl
      have hapart := link_apart hr.mounted hr.valid hy h.noBits .bitfield hr.inBuffer.pos hk
      rw [Partition.bitAddress, Partition.bamAddress,
        show (s.through part).imagetype = (s₀.partition part).imagetype from hformat.imagetype part]
      rwa [Partition.bamAddress] at hapart
    · rintro rfl -
      have hapart := link_apart hr.mounted hr.valid hy h.noBits .freecount (k := 0) (bamPosition_freecount _ _).1 hk
      rw [Partition.bamAddress,
        show (s.through part).imagetype = (s₀.partition part).imagetype from hformat.imagetype part]
      rwa [Partition.bamAddress] at hapart
  exact ⟨⟨h.noBits, fun k hk => (hsettled k hk).1⟩,
    fun setBit setCount => ⟨h.noBits, fun k hk => (hsettled k hk).2 _ _⟩⟩

theorem Fixed.freeSector {y : ℕ × ℕ} (h : Fixed s₀ part s y) (hs : Coherent s) (hformat : SameFormat s₀ s) {i : ℕ}
    (hr : InRange s₀ i track sector) (hy : ValidTS (s₀.type part) (s₀.lastTrack part) y.1 y.2) :
    Fixed s₀ part (freeSector s i track sector).2 y := by
  obtain ⟨hlook, hflip⟩ := h.isFree hs hformat hr hy
  rw [Dxx.freeSector]
  split
  · exact hlook
  · split
    · exact hflip _ _
    · exact hlook

theorem Fixed.allocateSector {y : ℕ × ℕ} (h : Fixed s₀ part s y) (hs : Coherent s) (hformat : SameFormat s₀ s)
    {i : ℕ} (hr : InRange s₀ i track sector) (hy : ValidTS (s₀.type part) (s₀.lastTrack part) y.1 y.2) :
    Fixed s₀ part (allocateSector s i track sector).2 y := by
  obtain ⟨hlook, hflip⟩ := h.isFree hs hformat hr hy
  rw [Dxx.allocateSector]
  split
  · exact hlook
  · split
    · exact hflip _ _
    · exact hlook

/-- From the start on, the calls on the BAM keep every link that is not made of its bits. -/
theorem bamCalls_fixed (hs : Started s) (calls : List BamCall) (hcalls : ∀ c ∈ calls, c.InRange s) {y : ℕ × ℕ}
    (hno : ¬HoldsBits (s.type part) y) (hy : ValidTS (s.type part) (s.lastTrack part) y.1 y.2) :
    Fixed s part (Run.run BamCall.run s calls).2 y := by
  have hstart : Fixed s part s y := by
    refine ⟨hno, fun k _ => ⟨?_, rfl⟩⟩
    rw [show s.view part = (s.through part).image from rfl, hs.through]
    rfl
  refine (Run.always_of_step (I := fun s' => Coherent s' ∧ SameFormat s s' ∧ Fixed s part s' y)
    (fun s' c hs' hc => ?_) ⟨hs.coherent, SameFormat.refl s, hstart⟩ (Run.meets_of_forall hcalls)).last.2.2
  obtain ⟨hco, hformat, hfixed⟩ := hs'
  obtain ⟨-, -, hco', hmeta⟩ := BamCall.run_ok hco (hc.sameFormat hformat)
  refine ⟨hco', hformat.trans hmeta.toSameFormat, ?_⟩
  cases c with
  | isFree i track sector => exact (hfixed.isFree hco hformat hc hy).1
  | sectorsFree i track =>
    rw [BamCall.run, Dxx.sectorsFree]
    split
    · exact hfixed
    · next hin =>
      have hle : track ≤ s'.lastTrack i := by omega
      rw [hformat.lastTrack] at hle
      have hmoved := hfixed.window hco (hformat.maxPart.symm ▸ hc.1) (hle.trans hc.2.lastTrack_le) .freecount
      dsimp only
      split <;> exact hmoved
  | allocateSector i track sector => exact hfixed.allocateSector hco hformat hc hy
  | freeSector i track sector => exact hfixed.freeSector hco hformat hc hy

/-! ### Rounds of the loop -/

/-- The sector that a link names. -/
def linked (buf : ℕ → UInt8) : ℕ × ℕ := ((buf 0).toNat, (buf 1).toNat)

/-- Where the loop of `d64_delete` begins. -/
def scratchStart (s : State) (part : ℕ) (dh : D64dh) : (ℕ → UInt8) × State :=
  (fun i => (readEntry s part dh).2.scratch (DIR_OFS_TRACK + i), (readEntry s part dh).2)

/-- A round that begins with a sector on the disk frees it and reads the link in it. -/
theorem deleteRound_onDisk (h : Freeing s₀ part s) {buf : ℕ → UInt8}
    (hr : InRange s₀ part (linked buf).1 (linked buf).2) :
    ∃ s' buf', Freeing s₀ part s' ∧ s'.view = (freeSector s part (linked buf).1 (linked buf).2).2.view ∧
      s'.image = (freeSector s part (linked buf).1 (linked buf).2).2.image ∧
      linked buf' = s'.linkBytes part (linked buf) ∧
      Walk.rounds (deleteRound part) (buf, s) =
        if s₀.Readable part (linked buf) ∧ (s'.linkBytes part (linked buf)).1 ≠ 0 then some (buf', s') else none := by
  have hfreeing := h.freeSector hr.mounted hr.inBuffer
  rw [Walk.rounds, deleteRound]
  dsimp only
  rw [show (buf 0).toNat = (linked buf).1 from rfl, show (buf 1).toNat = (linked buf).2 from rfl]
  generalize (freeSector s part (linked buf).1 (linked buf).2).2 = s1 at hfreeing ⊢
  obtain ⟨errorcache, error, hread, hcached, -, -⟩ := checkedRead_cached hfreeing.coherent.noFault
    ((hfreeing.format.mounted part).mpr hr.mounted) hfreeing.cached (linked buf) buf 2
    (show ERROR_ILLEGAL_TS_LINK ≠ ERROR_OK by decide)
  have hafter : Freeing s₀ part { s1 with errorcache, error } :=
    ⟨⟨hfreeing.coherent.noFault, hfreeing.coherent.maxPart, hfreeing.coherent.first.congr rfl rfl,
      fun b hb => (hfreeing.coherent.second b hb).congr rfl rfl, hfreeing.coherent.apart⟩,
      hfreeing.format.congr rfl rfl, hcached, hfreeing.outside⟩
  have hlinked : linked (Memory.write buf 0 2 fun i =>
      s1.image part (s1.offset part (linked buf).1 (linked buf).2 + i)) = s1.linkBytes part (linked buf) := by
    rw [linked, Memory.write_zero (by decide), Memory.write_zero (by decide)]
    rfl
  refine ⟨{ s1 with errorcache, error }, _, hafter, rfl, rfl, hlinked, ?_⟩
  rw [hread]
  dsimp only
  by_cases hok : s₀.Readable part (linked buf)
  · have hok' := (hfreeing.readable hr.mounted (linked buf)).mpr hok
    rw [if_pos hok', if_pos hok', if_neg (not_not.mpr rfl)]
    have hzero : Memory.write buf 0 2 (fun i =>
        s1.image part (s1.offset part (linked buf).1 (linked buf).2 + i)) 0 ≠ 0 ↔
          (s1.linkBytes part (linked buf)).1 ≠ 0 := by
      rw [← hlinked]
      exact not_congr ⟨fun hz => congrArg UInt8.toNat hz, fun hz => UInt8.toNat_inj.mp hz⟩
    by_cases hlast : (s1.linkBytes part (linked buf)).1 ≠ 0
    · rw [if_pos (hzero.mpr hlast), if_pos ⟨hok, hlast⟩]
      rfl
    · rw [if_neg fun hne => hlast (hzero.mp hne), if_neg fun hboth => hlast hboth.2]
      rfl
  · have hnot : ¬s1.Readable part (linked buf) := fun hyes => hok ((hfreeing.readable hr.mounted _).mp hyes)
    rw [if_neg hnot, if_neg hnot, if_pos (by decide), if_neg fun hboth => hok hboth.1]
    rfl

/-- Whatever is freed, a sector that is not on the disk ends the loop. -/
theorem deleteRound_offDisk (h : Freeing s₀ part s) {buf : ℕ → UInt8}
    (hno : ¬ValidTS (s₀.type part) (s₀.lastTrack part) (linked buf).1 (linked buf).2) :
    Walk.rounds (deleteRound part) (buf, s) = none := by
  have hformat := h.format.trans (freeSector_sameFormat s part (linked buf).1 (linked buf).2)
  have hrange : (linked buf).1 < 1 ∨ (linked buf).1 > s₀.lastTrack part ∨
      (linked buf).2 ≥ sectorsPerTrack (s₀.type part) (linked buf).1 := by
    by_contra hnot
    push Not at hnot
    exact hno ⟨hnot.1, hnot.2.1, hnot.2.2⟩
  rw [Walk.rounds, deleteRound]
  dsimp only
  rw [show (buf 0).toNat = (linked buf).1 from rfl, show (buf 1).toNat = (linked buf).2 from rfl, checkedRead,
    hformat.lastTrack, hformat.type, if_pos hrange]
  dsimp only
  rw [if_pos (by decide)]
  rfl

/-- The links of the chain are ones that freeing sectors leaves alone. -/
def FixedLinks (s : State) (part : ℕ) (x : ℕ × ℕ) : Prop :=
  ∀ n y, Walk.place (walkSectors s part fun _ => false) x n = some y →
    ValidTS (s.type part) (s.lastTrack part) y.1 y.2 → Fixed s part s y

/-- While the links stay, the loop goes along the chain that the image had before. -/
theorem ends_deleteRounds_iff (hlt : part < s₀.maxPart) (hm : (s₀.partition part).Mounted)
    {buf : ℕ → UInt8} (h : Freeing s₀ part s)
    (hfixed : ∀ n y, Walk.place (walkSectors s₀ part fun _ => false) (linked buf) n = some y →
      ValidTS (s₀.type part) (s₀.lastTrack part) y.1 y.2 → Fixed s₀ part s y) :
    Walk.Ends (Walk.rounds (deleteRound part)) (buf, s) ↔
      Walk.Ends (walkSectors s₀ part fun _ => false) (linked buf) := by
  refine Walk.ends_iff_of_simulates (fun y x => Freeing s₀ part y.2 ∧ linked y.1 = x ∧
    ∀ n z, Walk.place (walkSectors s₀ part fun _ => false) x n = some z →
      ValidTS (s₀.type part) (s₀.lastTrack part) z.1 z.2 → Fixed s₀ part y.2 z) ?_ ⟨h, rfl, hfixed⟩
  rintro ⟨buf, s⟩ x ⟨h, hx, hfixed⟩
  dsimp only at h hx hfixed
  subst hx
  by_cases hvalid : ValidTS (s₀.type part) (s₀.lastTrack part) (linked buf).1 (linked buf).2
  · have hr : InRange s₀ part (linked buf).1 (linked buf).2 := ⟨hlt, hm, hvalid⟩
    obtain ⟨s', buf', hfreeing, hview, himage, hlinked, hround⟩ := deleteRound_onDisk h hr
    have hkept : ∀ n z, Walk.place (walkSectors s₀ part fun _ => false) (linked buf) n = some z →
        ValidTS (s₀.type part) (s₀.lastTrack part) z.1 z.2 → Fixed s₀ part s' z := by
      intro n z hz hvz
      obtain ⟨hno, hsettled⟩ := (hfixed n z hz hvz).freeSector h.coherent h.format hr hvz
      refine ⟨hno, fun i hi => ?_⟩
      rw [Steady, hview, himage]
      exact hsettled i hi
    have hsame : s'.linkBytes part (linked buf) = s₀.linkBytes part (linked buf) := by
      obtain ⟨-, hsettled⟩ := hkept 0 _ rfl hvalid
      rw [State.linkBytes, State.linkBytes, hfreeing.format.offset]
      exact Prod.ext (congrArg UInt8.toNat (hsettled 0 (by decide)).2)
        (congrArg UInt8.toNat (hsettled 1 (by decide)).2)
    have hwalk : walkSectors s₀ part (fun _ => false) (linked buf) = s₀.link part (linked buf) :=
      walkSectors_of_go fun _ _ => rfl
    rw [hround, hwalk, State.link, hsame]
    by_cases hmore : s₀.Readable part (linked buf) ∧ (s₀.linkBytes part (linked buf)).1 ≠ 0
    · rw [if_pos hmore, if_pos hmore]
      refine .inr ⟨_, _, rfl, rfl, hfreeing, hlinked.trans hsame, fun n z hz => hkept (1 + n) z ?_⟩
      rw [Walk.place_add]
      show ((some _).bind _).bind _ = _
      rw [Option.bind_some, hwalk, State.link, if_pos hmore, Option.bind_some, hz]
    · rw [if_neg hmore, if_neg hmore]
      exact .inl ⟨rfl, rfl⟩
  · rw [deleteRound_offDisk h hvalid, walkSectors_of_not_valid hvalid]
    exact .inl ⟨rfl, rfl⟩

/-- Whatever becomes of the links, a loop that comes to no sector twice ends. -/
theorem ends_of_once (hlt : part < s₀.maxPart) (hm : (s₀.partition part).Mounted) {y : (ℕ → UInt8) × State}
    (h : Freeing s₀ part y.2) (honce : ¬Walk.Repeats (fun y => linked y.1) (Walk.rounds (deleteRound part)) y) :
    Walk.Ends (Walk.rounds (deleteRound part)) y := by
  refine Walk.ends_of_not_repeats (I := fun y => Freeing s₀ part y.2) (finite_onDisk s₀ part) ?_ h honce
  rintro ⟨buf, s⟩ y' h hround
  have hvalid : ValidTS (s₀.type part) (s₀.lastTrack part) (linked buf).1 (linked buf).2 := by
    by_contra hno
    rw [deleteRound_offDisk h hno] at hround
    cases hround
  refine ⟨hvalid, ?_⟩
  obtain ⟨s', buf', hfreeing, -, -, -, hround'⟩ := deleteRound_onDisk h ⟨hlt, hm, hvalid⟩
  rw [hround'] at hround
  split at hround
  · cases hround
    exact hfreeing
  · cases hround

/-- The sectors that `d64_delete` comes to are all different. Where the links are made of BAM bits, they
count as the loop finds them when it has freed the sectors before. -/
def ScratchesOnce (s : State) (part : ℕ) (dh : D64dh) : Prop :=
  (FixedLinks s part (fileStart s part dh) →
    ¬Walk.Revisits (walkSectors s part fun _ => false) (fileStart s part dh)) ∧
  (¬FixedLinks s part (fileStart s part dh) →
    ¬Walk.Repeats (fun y => linked y.1) (Walk.rounds (deleteRound part)) (scratchStart s part dh))

theorem delete_terminates (hs : Coherent s) (hlt : part < s.maxPart)
    (hm : (s.partition part).Mounted) (hcached : s.Cached part) (dh : D64dh) :
    (ScratchesOnce s part dh → ∃ fuel, (d64Delete fuel part dh s).isSome) ∧
      (FixedLinks s part (fileStart s part dh) → (∃ fuel, (d64Delete fuel part dh s).isSome) →
        ScratchesOnce s part dh) := by
  obtain ⟨s', hread, hreading, -, hscratch⟩ := (reading_self hcached).readEntry hs.noFault dh
  have hcoherent := hreading.coherent hs
  have hstart : scratchStart s part dh = (fun i => s'.scratch (DIR_OFS_TRACK + i), s') := by
    rw [scratchStart, hread]
  have hlinked : linked (fun i => s'.scratch (DIR_OFS_TRACK + i)) = fileStart s part dh := by
    rw [linked, hscratch _ (by decide), hscratch _ (by decide)]
    rfl
  have hterm : (∃ fuel, (d64Delete fuel part dh s).isSome) ↔
      Walk.Ends (Walk.rounds (deleteRound part)) (scratchStart s part dh) := by
    rw [hstart, ← Walk.terminates_iff_ends]
    refine exists_congr fun fuel => ?_
    rw [d64Delete, hread]
    dsimp only
    rw [if_neg (not_not.mpr rfl)]
    cases Walk.loop (deleteRound part) fuel (fun i => s'.scratch (DIR_OFS_TRACK + i), s') with
    | none => rfl
    | some r =>
      dsimp only
      split <;> rfl
  obtain ⟨⟨errorcache, scratch, error, rfl⟩, hcached'⟩ := hreading
  have hfreeing : Freeing s part { s with errorcache, scratch, error } :=
    ⟨hcoherent, (SameFormat.refl s).congr rfl rfl, hcached', fun _ _ => rfl⟩
  have hfixed : FixedLinks s part (fileStart s part dh) →
      ((∃ fuel, (d64Delete fuel part dh s).isSome) ↔
        ¬Walk.Revisits (walkSectors s part fun _ => false) (fileStart s part dh)) := by
    intro h
    rw [hterm, hstart, ends_deleteRounds_iff hlt hm hfreeing, hlinked, ends_walkSectors_iff]
    rw [hlinked]
    exact fun n y hn hy => ⟨(h n y hn hy).noBits, (h n y hn hy).settled⟩
  refine ⟨fun h => ?_, fun hlinks h => ⟨fun _ => (hfixed hlinks).mp h, fun hno => absurd hlinks hno⟩⟩
  by_cases hlinks : FixedLinks s part (fileStart s part dh)
  · exact (hfixed hlinks).mpr (h.1 hlinks)
  · refine hterm.mpr (ends_of_once hlt hm ?_ (h.2 hlinks))
    rw [hstart]
    exact hfreeing

/-! ### The four walks -/

/-- A call that follows the links of an image: `d64_readdir` until it stops returning 0 and
`find_empty_entry`, in the directory whose `path_t` has the given track and sector, `d64_open_write`
for a file that is appended to, and `d64_delete`. -/
inductive ChainCall
  | readdir (track sector : ℕ)
  | findEmptyEntry (track sector : ℕ)
  | openAppend (timestamp : (ℕ → UInt8) → ℕ → UInt8) (dh : D64dh) (buf : FileBuffer)
  | delete (dh : D64dh)

namespace ChainCall

/-- The call comes to an end. -/
def Terminates (s : State) (part : ℕ) : ChainCall → Prop
  | readdir track sector => ∃ fuel, (readAll part fuel (d64Opendir part track sector s).2).isSome
  | findEmptyEntry track sector => ∃ fuel, (Dxx.findEmptyEntry fuel part track sector s).isSome
  | openAppend timestamp dh buf => ∃ fuel, (d64OpenAppend timestamp fuel part dh buf s).isSome
  | delete dh => ∃ fuel, (d64Delete fuel part dh s).isSome

/-- The call follows a chain that comes to no sector twice. `find_empty_entry` follows it only up to
a sector with an empty entry, and must not have to extend the directory from the last track of a full
DNP image; a file is followed to its end only if the image can be written to and no error is left
from before. -/
def Acyclic (s : State) (part : ℕ) : ChainCall → Prop
  | readdir track sector =>
    ¬Walk.Revisits (walkSectors s part fun _ => false) (dirStart s part track sector)
  | findEmptyEntry track sector =>
    ¬Walk.Revisits (walkSectors s part (EmptyEntry s part)) (dirStart s part track sector) ∧
      ¬ExtendsForever s part (dirStart s part track sector)
  | openAppend _ dh _ => (s.partition part).writable = true → s.error.code = ERROR_OK →
    ¬Walk.Revisits (walkSectors s part fun _ => false) (fileStart s part dh)
  | delete dh => ScratchesOnce s part dh

/-- The links of a file that is scratched are not made of bits of the BAM. -/
def LinksFixed (s : State) (part : ℕ) : ChainCall → Prop
  | delete dh => FixedLinks s part (fileStart s part dh)
  | _ => True

end ChainCall

/-- On every mounted image, a call ends if the chain that it follows comes to no sector twice, and,
unless it changes the links of the chain itself, only then. -/
theorem chainCall_terminates_iff (hs : Coherent s) (hlt : part < s.maxPart)
    (hm : (s.partition part).Mounted) (hcached : s.Cached part) (c : ChainCall) :
    (c.Acyclic s part → c.Terminates s part) ∧
      (c.LinksFixed s part → (c.Terminates s part ↔ c.Acyclic s part)) := by
  cases c with
  | readdir track sector =>
    have hiff := readAll_opendir_iff hs.noFault hm hcached track sector
    exact ⟨hiff.mpr, fun _ => hiff⟩
  | findEmptyEntry track sector =>
    have hiff := findEmptyEntry_terminates_iff hs hlt hm hcached track sector
    exact ⟨hiff.mpr, fun _ => hiff⟩
  | openAppend timestamp dh buf =>
    have hiff := append_terminates_iff hs.noFault hm hcached timestamp dh buf
    exact ⟨hiff.mpr, fun _ => hiff⟩
  | delete dh =>
    obtain ⟨hends, honly⟩ := delete_terminates hs hlt hm hcached dh
    exact ⟨hends, fun hlinks => ⟨honly hlinks, hends⟩⟩

/-- A D41 image with one file, whose sectors are the BAM sector 18/0 and the directory sector 18/1. -/
def bamFile : State where
  partition _ := ⟨⟨.d41, false⟩, d41param, fun o =>
    if o = 91392 then 18 else if o = 91393 then 1 else if o = 91650 then 0x82 else if o = 91651 then 18 else 0, true⟩
  maxPart := 1
  bamBuffer := ⟨255, 0, 0, false, fun _ => 0, 0⟩
  bamBuffer2 := none
  errorcache := ⟨255, 0, fun _ => 0⟩
  scratch _ := 0
  error := ⟨0, 0, 0⟩
  io _ := .ok
  sysFree _ := none

theorem bamFile_delete_terminates : (ChainCall.delete ⟨18, 1, 0⟩).Terminates bamFile 0 := by
  have hs : Started bamFile := ⟨rfl, by decide, ⟨rfl, rfl⟩, by rintro _ ⟨⟩⟩
  have hfixed : FixedLinks bamFile 0 (fileStart bamFile 0 ⟨18, 1, 0⟩) := fun _ y _ hy =>
    bamCalls_fixed hs [] (fun _ hc => by cases hc) (fun h => h) hy
  have hfirst : walkSectors bamFile 0 (fun _ => false) (18, 0) = some (18, 1) := by decide
  have hlast : walkSectors bamFile 0 (fun _ => false) (18, 1) = none := by decide
  refine ((chainCall_terminates_iff hs.coherent (by decide) ⟨174848, [], by decide⟩
    (fun hinfo => absurd hinfo (by decide)) (.delete ⟨18, 1, 0⟩)).2 hfixed).mpr
    ⟨fun _ => Walk.Ends.not_revisits ?_, fun hno => absurd hfixed hno⟩
  exact (Walk.ends_iff_of_some hfirst).mpr (Walk.ends_of_none hlast)

/-- A D41 image without a file, whose directory sector 18/1 leads back to itself. -/
def loopImage : State where
  partition _ := ⟨⟨.d41, false⟩, d41param,
    fun o => if o = 91648 then 18 else if o = 91649 then 1 else 0, true⟩
  maxPart := 1
  bamBuffer := ⟨255, 0, 0, false, fun _ => 0, 0⟩
  bamBuffer2 := none
  errorcache := ⟨255, 0, fun _ => 0⟩
  scratch _ := 0
  error := ⟨0, 0, 0⟩
  io _ := .ok
  sysFree _ := none

theorem loopImage_readdir_diverges :
    Started loopImage ∧ (loopImage.partition 0).Mounted ∧
      ∀ fuel, readAll 0 fuel (d64Opendir 0 18 1 loopImage).2 = none := by
  have hs : Started loopImage := ⟨rfl, by decide, ⟨rfl, rfl⟩, by rintro _ ⟨⟩⟩
  have hm : (loopImage.partition 0).Mounted := ⟨174848, [], by decide⟩
  have hcached : loopImage.Cached 0 := fun hinfo => absurd hinfo (by decide)
  have hself : walkSectors loopImage 0 (fun _ => false) (18, 1) = some (18, 1) := by decide
  refine ⟨hs, hm, fun fuel => ?_⟩
  cases hread : readAll 0 fuel (d64Opendir 0 18 1 loopImage).2 with
  | none => rfl
  | some r =>
    refine absurd ⟨0, 1, (18, 1), Nat.one_pos, rfl, hself⟩
      ((readAll_opendir_iff hs.noFault hm hcached 18 1).mp ⟨fuel, ?_⟩)
    rw [hread]
    rfl

end NoDiskEmu.Dxx
