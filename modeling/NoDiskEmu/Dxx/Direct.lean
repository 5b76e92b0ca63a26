import NoDiskEmu.Dxx.BamCache
import NoDiskEmu.Library.Run

/-! The operations on the BAM as they are without the buffers: each reads and writes the BAM bytes
directly in the image file.  The operations of `d64ops.c` refine them, and `d64_bam_commit` makes
the two levels equal. -/

namespace NoDiskEmu.Dxx

open Library

namespace Partition

def isDnp (p : Partition) : Bool := p.imagetype = ⟨.dnp, false⟩

/-- The file offset of the bytes that `move_bam_window` points to. -/
def bamAddress (p : Partition) (track : ℕ) (data : BamData) : ℕ :=
  let w := bamPosition p.imagetype.type track data
  sectorOffset p.imagetype.type w.1 w.2.1 + w.2.2

/-- The file offset of the bitmap byte of a sector. -/
def bitAddress (p : Partition) (track sector : ℕ) : ℕ := p.bamAddress track .bitfield + sector / 8

def isFree (p : Partition) (track sector : ℕ) : Bool :=
  Bits.test (p.image (p.bitAddress track sector)) (sectorMask p.isDnp sector)

def sectorsFree (p : Partition) (track : ℕ) : ℕ :=
  if track < 1 ∨ track > p.d64data.lastTrack then 0
  else freeCount p.imagetype.type p.image (p.bamAddress track .freecount)

def setByte (p : Partition) (address : ℕ) (value : UInt8) : Partition :=
  { p with image := Function.update p.image address value }

/-- A block of the image is replaced. -/
def write (p : Partition) (off n : ℕ) (data : ℕ → UInt8) : Partition :=
  { p with image := Memory.write p.image off n data }

def adjustCount (p : Partition) (track : ℕ) (setCount : UInt8 → Option UInt8) : Partition :=
  match setCount (p.image (p.bamAddress track .freecount)) with
  | none => p
  | some count => p.setByte (p.bamAddress track .freecount) count

def flipSector (p : Partition) (track sector : ℕ) (setBit : UInt8 → UInt8 → UInt8)
    (setCount : UInt8 → Option UInt8) : Partition :=
  let address := p.bitAddress track sector
  let p' := p.setByte address (setBit (p.image address) (sectorMask p.isDnp sector))
  if p.isDnp then p' else p'.adjustCount track setCount

def allocateSector (p : Partition) (track sector : ℕ) : Partition :=
  if p.isFree track sector then
    p.flipSector track sector (fun byte mask => byte &&& ~~~mask)
      fun count => if 0 < count then some (count - 1) else none
  else p

def freeSector (p : Partition) (track sector : ℕ) : Partition :=
  if p.isFree track sector then p
  else
    p.flipSector track sector (fun byte mask => byte ||| mask)
      fun count =>
        if count.toNat < sectorsPerTrack p.imagetype.type track then some (count + 1) else none

end Partition

/-- The partitions with their images as seen through the BAM buffers. -/
def State.through (s : State) : ℕ → Partition := fun p => { s.partition p with image := s.view p }

/-! ### Single bytes -/

variable {s s' : State} {part track sector : ℕ}

/-- The images behind the first buffer. -/
def State.behind (s : State) : ℕ → ℕ → UInt8 :=
  match s.bamBuffer2 with
  | none => s.image
  | some b => patch s.type b s.image

theorem State.view_eq (s : State) : s.view = patch s.type s.bamBuffer s.behind := rfl

/-- A clean first buffer holds what lies behind it. -/
theorem Coherent.clean_behind (hs : Coherent s) (hvalid : s.bamBuffer.part ≠ 255)
    (hclean : s.bamBuffer.mustflush = false) {i : ℕ} (hi : i < 256) :
    s.bamBuffer.data i = s.behind s.bamBuffer.part
      (s.offset s.bamBuffer.part s.bamBuffer.track s.bamBuffer.sector + i) := by
  rw [hs.first.clean hvalid hclean i hi, State.behind]
  cases hsecond : s.bamBuffer2 with
  | none => rfl
  | some b =>
    exact (hs.first.patch_other (hs.second b hsecond) (hs.apart b hsecond) hvalid _ hi).symm

/-- The contents of a valid first buffer are part of the view, whether it is dirty or not. -/
theorem Coherent.view_eq_write (hs : Coherent s) (hvalid : s.bamBuffer.part ≠ 255) :
    s.view = Function.update s.behind s.bamBuffer.part
      (Memory.write (s.behind s.bamBuffer.part)
        (s.offset s.bamBuffer.part s.bamBuffer.track s.bamBuffer.sector) 256 s.bamBuffer.data) := by
  rw [State.view_eq, patch]
  split
  · rfl
  · next hclean =>
    rw [Memory.write_same fun i hi => hs.clean_behind hvalid (by simpa using hclean) hi,
      Function.update_eq_self]

theorem Coherent.data_eq_view (hs : Coherent s) (hvalid : s.bamBuffer.part ≠ 255) {i : ℕ}
    (hi : i < 256) :
    s.bamBuffer.data i = s.view s.bamBuffer.part
      (s.offset s.bamBuffer.part s.bamBuffer.track s.bamBuffer.sector + i) := by
  rw [hs.view_eq_write hvalid, Function.update_self, Memory.write_inside hi]

theorem setBamByte_ok (hs : Coherent s) (hvalid : s.bamBuffer.part ≠ 255) {pos : ℕ}
    (hpos : pos < 256) (value : UInt8) :
    Coherent (setBamByte s pos value) ∧ SameMeta s (setBamByte s pos value) ∧
      (setBamByte s pos value).view = Function.update s.view s.bamBuffer.part
        (Function.update (s.view s.bamBuffer.part)
          (s.offset s.bamBuffer.part s.bamBuffer.track s.bamBuffer.sector + pos) value) := by
  refine ⟨⟨hs.noFault, hs.maxPart, ?_, fun b hb => (hs.second b hb).congr rfl rfl, hs.apart⟩,
    (SameMeta.refl s).congr rfl rfl rfl rfl rfl, ?_⟩
  · exact ⟨fun h => absurd h hvalid, fun _ => hs.first.part hvalid, fun _ => hs.first.bam hvalid,
      fun _ h => by simp [setBamByte] at h⟩
  · rw [hs.view_eq_write hvalid, Function.update_self, Function.update_idem, ← Memory.write_update hpos]
    rfl

/-! ### The four operations -/

/-- The partition is mounted, and the image has the given sector. -/
structure InRange (s : State) (part track sector : ℕ) : Prop where
  lt : part < s.maxPart
  mounted : (s.partition part).Mounted
  valid : ValidTS (s.type part) (s.lastTrack part) track sector

theorem InRange.sameFormat (h : InRange s part track sector) (hsame : SameFormat s s') :
    InRange s' part track sector :=
  ⟨hsame.maxPart.symm ▸ h.lt, (hsame.mounted part).mpr h.mounted, by
    rw [hsame.type, hsame.lastTrack]; exact h.valid⟩

theorem Keeps.through (h : Keeps s s') : s'.through = s.through := by
  funext p
  simp only [State.through, h.view, h.imagetype, h.d64data, h.writable]

/-- The bitmap byte of the sector lies inside its BAM sector. Besides the sectors of the image these
are some of those that damaged links lead to. -/
structure InBuffer (s : State) (part track sector : ℕ) : Prop where
  lt : part < s.maxPart
  le : track ≤ 255
  pos : (bamPosition (s.type part) track .bitfield).2.2 + sector / 8 < 256

theorem InRange.inBuffer (h : InRange s part track sector) : InBuffer s part track sector :=
  ⟨h.lt, h.valid.2.1.trans h.mounted.lastTrack_le, bamPosition_bitfield h.mounted h.valid⟩

theorem InBuffer.sameFormat (h : InBuffer s part track sector) (hsame : SameFormat s s') :
    InBuffer s' part track sector :=
  ⟨hsame.maxPart.symm ▸ h.lt, h.le, by rw [hsame.type]; exact h.pos⟩

/-- `s'` is `s` with one partition, as seen through the buffers, replaced by `p`. -/
structure Becomes (s s' : State) (part : ℕ) (p : Partition) : Prop extends SameMeta s s' where
  coherent : Coherent s'
  through : s'.through = Function.update s.through part p

namespace Becomes

variable {s'' : State} {p q : Partition}

theorem of_keeps (hkeep : Keeps s s') (hco : Coherent s') : Becomes s s' part (s.through part) :=
  ⟨hkeep.toSameMeta, hco, by rw [Function.update_eq_self, hkeep.through]⟩

theorem trans (h : Becomes s s' part p) (h' : Becomes s' s'' part q) : Becomes s s'' part q :=
  ⟨h.toSameMeta.trans h'.toSameMeta, h'.coherent, by
    rw [h'.through, h.through, Function.update_idem]⟩

theorem after (hkeep : Keeps s s') (h : Becomes s' s'' part p) : Becomes s s'' part p :=
  ⟨hkeep.toSameMeta.trans h.toSameMeta, h.coherent, by rw [h.through, hkeep.through]⟩

theorem through_self (h : Becomes s s' part p) : s'.through part = p := by
  rw [h.through, Function.update_self]

end Becomes

/-- `move_bam_window` succeeds, changes nothing that can be seen, and gives access to the bytes at
`bamAddress`. -/
structure Window (s s' : State) (part track : ℕ) (data : BamData) : Prop extends Keeps s s' where
  coherent : Coherent s'
  valid : s'.bamBuffer.part ≠ 255
  read : ∀ i, (bamPosition (s.type part) track data).2.2 + i < 256 →
    s'.bamBuffer.data ((bamPosition (s.type part) track data).2.2 + i) =
      (s.through part).image ((s.through part).bamAddress track data + i)
  write : ∀ i value, (bamPosition (s.type part) track data).2.2 + i < 256 →
    Becomes s (setBamByte s' ((bamPosition (s.type part) track data).2.2 + i) value) part
      ((s.through part).setByte ((s.through part).bamAddress track data + i) value)

theorem setBamByte_through (hs : Coherent s) (hvalid : s.bamBuffer.part ≠ 255) {pos : ℕ}
    (hpos : pos < 256) (value : UInt8) :
    (setBamByte s pos value).through = Function.update s.through s.bamBuffer.part
      ((s.through s.bamBuffer.part).setByte
        (s.offset s.bamBuffer.part s.bamBuffer.track s.bamBuffer.sector + pos) value) := by
  obtain ⟨-, -, hview⟩ := setBamByte_ok hs hvalid hpos value
  funext p
  simp only [State.through, hview]
  by_cases hp : p = s.bamBuffer.part
  · subst hp
    simp only [Function.update_self]
    rfl
  · simp only [Function.update_of_ne hp]
    rfl

theorem moveBamWindow_window (hs : Coherent s) (hlt : part < s.maxPart) (htrack : track ≤ 255)
    (data : BamData) :
    ∃ s', moveBamWindow s part track data = (0, (bamPosition (s.type part) track data).2.2, s') ∧
      Window s s' part track data := by
  obtain ⟨s', hmove, hco, hkeep, hholds⟩ := moveBamWindow_ok hs hlt htrack data
  have hvalid : s'.bamBuffer.part ≠ 255 := by
    have hmax := hs.maxPart
    rw [hholds.part]
    omega
  have haddr (i : ℕ) : s'.offset part (bamPosition (s.type part) track data).1
      (bamPosition (s.type part) track data).2.1 + ((bamPosition (s.type part) track data).2.2 + i) =
      (s.through part).bamAddress track data + i := by
    rw [hkeep.offset, ← Nat.add_assoc]
    rfl
  refine ⟨s', hmove, hkeep, hco, hvalid, fun i hi => ?_, fun i value hi => ?_⟩
  · rw [hco.data_eq_view hvalid hi, hholds.part, hholds.track, hholds.sector, haddr, hkeep.view]
    rfl
  · obtain ⟨hco', hmeta, -⟩ := setBamByte_ok hco hvalid hi value
    refine ⟨hkeep.toSameMeta.trans hmeta, hco', ?_⟩
    rw [setBamByte_through hco hvalid hi, hholds.part, hholds.track, hholds.sector, haddr,
      hkeep.through]

theorem isFree_ok (hs : Coherent s) (h : InBuffer s part track sector) :
    ∃ s', isFree s part track sector =
        (if (s.through part).isFree track sector then 1 else 0, s') ∧
      Coherent s' ∧ Keeps s s' := by
  obtain ⟨s', hmove, hw⟩ := moveBamWindow_window hs h.lt h.le .bitfield
  refine ⟨s', ?_, hw.coherent, hw.toKeeps⟩
  rw [isFree, hmove]
  simp only [ne_eq, not_true_eq_false, if_false,
    hw.read _ h.pos]
  rfl

theorem sectorsFree_ok (hs : Coherent s) (hlt : part < s.maxPart)
    (hm : (s.partition part).Mounted) (track : ℕ) :
    ∃ s', sectorsFree s part track = ((s.through part).sectorsFree track, s') ∧
      Coherent s' ∧ Keeps s s' := by
  by_cases hrange : track < 1 ∨ track > s.lastTrack part
  · refine ⟨s, ?_, hs, Keeps.refl s⟩
    rw [sectorsFree, if_pos hrange, Partition.sectorsFree]
    exact congrArg (·, s) (if_pos hrange).symm
  · obtain ⟨s', hmove, hw⟩ :=
      moveBamWindow_window hs hlt ((show track ≤ s.lastTrack part by omega).trans hm.lastTrack_le) .freecount
    refine ⟨s', ?_, hw.coherent, hw.toKeeps⟩
    rw [sectorsFree, if_neg hrange, hmove, Partition.sectorsFree]
    rw [if_neg (show ¬(track < 1 ∨ track > (s.through part).d64data.lastTrack) from hrange)]
    simp only [ne_eq, not_true_eq_false, if_false]
    refine congrArg (·, s') ?_
    obtain ⟨hpos, hdnp⟩ := bamPosition_freecount (s.type part) track
    show freeCount (s.type part) _ _ = freeCount (s.type part) _ _
    rw [freeCount, freeCount]
    split
    · next hd =>
      refine congrArg List.sum (List.map_congr_left fun i hi => ?_)
      have hi' := List.mem_range.mp hi
      have hpos' := hdnp hd
      rw [hw.read i (by omega)]
    · rw [← Nat.add_zero (bamPosition _ _ _).2.2, hw.read 0 hpos]
      rfl

theorem adjustCount_ok (hs : Coherent s) (h : InBuffer s part track sector)
    (setCount : UInt8 → Option UInt8) :
    ∃ s', adjustCount s part track setCount = (0, s') ∧
      Becomes s s' part ((s.through part).adjustCount track setCount) := by
  obtain ⟨hpos, -⟩ := bamPosition_freecount (s.type part) track
  obtain ⟨s1, hmove, hw⟩ := moveBamWindow_window hs h.lt h.le .freecount
  have hread := hw.read 0 hpos
  simp only [Nat.add_zero] at hread
  rw [adjustCount, hmove, Partition.adjustCount]
  simp only [ne_eq, not_true_eq_false, if_false, hread]
  cases setCount ((s.through part).image ((s.through part).bamAddress track .freecount)) with
  | none => exact ⟨s1, rfl, Becomes.of_keeps hw.toKeeps hw.coherent⟩
  | some count => exact ⟨_, rfl, hw.write 0 count hpos⟩

theorem flipSector_ok (hs : Coherent s) (h : InBuffer s part track sector)
    (setBit : UInt8 → UInt8 → UInt8) (setCount : UInt8 → Option UInt8) :
    ∃ s', flipSector s part track sector setBit setCount = (0, s') ∧
      Becomes s s' part ((s.through part).flipSector track sector setBit setCount) := by
  have hbit := h.pos
  obtain ⟨s1, hmove, hw⟩ := moveBamWindow_window hs h.lt h.le .bitfield
  have hset := hw.write _ (setBit ((s.through part).image ((s.through part).bitAddress track sector))
    (sectorMask (s.through part).isDnp sector)) hbit
  rw [flipSector, hmove, Partition.flipSector]
  simp only [ne_eq, not_true_eq_false, if_false, hw.read _ hbit]
  by_cases hdnp : s.isDnp part = true
  · rw [if_pos hdnp, if_pos (show (s.through part).isDnp = true from hdnp)]
    exact ⟨_, rfl, hset⟩
  · rw [if_neg hdnp, if_neg (show ¬(s.through part).isDnp = true from hdnp)]
    obtain ⟨s', hadjust, hbecomes⟩ :=
      adjustCount_ok hset.coherent (h.sameFormat hset.toSameFormat) setCount
    rw [hset.through_self] at hbecomes
    exact ⟨s', hadjust, hset.trans hbecomes⟩

theorem allocateSector_ok (hs : Coherent s) (h : InBuffer s part track sector) :
    ∃ s', allocateSector s part track sector = (0, s') ∧
      Becomes s s' part ((s.through part).allocateSector track sector) := by
  obtain ⟨s1, hfree, hco, hkeep⟩ := isFree_ok hs h
  rw [allocateSector, hfree, Partition.allocateSector]
  by_cases hbit : (s.through part).isFree track sector = true
  · obtain ⟨s', hflip, hbecomes⟩ := flipSector_ok hco (h.sameFormat hkeep.toSameFormat)
      (fun byte mask => byte &&& ~~~mask) fun count => if 0 < count then some (count - 1) else none
    rw [hkeep.through] at hbecomes
    simp only [hbit, if_true]
    exact ⟨s', hflip, Becomes.after hkeep hbecomes⟩
  · simp only [hbit]
    exact ⟨s1, rfl, Becomes.of_keeps hkeep hco⟩

theorem freeSector_ok (hs : Coherent s) (h : InBuffer s part track sector) :
    ∃ s', freeSector s part track sector = (0, s') ∧
      Becomes s s' part ((s.through part).freeSector track sector) := by
  obtain ⟨s1, hfree, hco, hkeep⟩ := isFree_ok hs h
  rw [freeSector, hfree, Partition.freeSector]
  by_cases hbit : (s.through part).isFree track sector = true
  · simp only [hbit, if_true]
    exact ⟨s1, rfl, Becomes.of_keeps hkeep hco⟩
  · obtain ⟨s', hflip, hbecomes⟩ := flipSector_ok hco (h.sameFormat hkeep.toSameFormat)
      (fun byte mask => byte ||| mask) fun count =>
        if count.toNat < sectorsPerTrack (s.type part) track then some (count + 1) else none
    rw [hkeep.through] at hbecomes
    simp only [hbit]
    exact ⟨s', hflip, Becomes.after hkeep hbecomes⟩

theorem d64BamCommit_through (hs : Coherent s) : (d64BamCommit s).2.partition = s.through := by
  obtain ⟨s', hcommit, -, hkeep, himage, -⟩ := d64BamCommit_ok hs
  rw [hcommit]
  funext p
  have hp : (s'.partition p).image = s.view p := congrFun himage p
  simp only [State.through]
  rw [← hp, ← hkeep.imagetype p, ← hkeep.d64data p, ← hkeep.writable p]

/-! ### Runs -/

/-- The calls that other parts of `d64ops.c` make on the BAM. -/
inductive BamCall
  | isFree (part track sector : ℕ)
  | sectorsFree (part track : ℕ)
  | allocateSector (part track sector : ℕ)
  | freeSector (part track sector : ℕ)

namespace BamCall

def run (s : State) : BamCall → ℤ × State
  | isFree part track sector => Dxx.isFree s part track sector
  | sectorsFree part track => let r := Dxx.sectorsFree s part track; (r.1, r.2)
  | allocateSector part track sector => let r := Dxx.allocateSector s part track sector; (r.1, r.2)
  | freeSector part track sector => let r := Dxx.freeSector s part track sector; (r.1, r.2)

/-- The same call, made directly on the image files. -/
def direct (ps : ℕ → Partition) : BamCall → ℤ × (ℕ → Partition)
  | isFree part track sector => (if (ps part).isFree track sector then 1 else 0, ps)
  | sectorsFree part track => ((ps part).sectorsFree track, ps)
  | allocateSector part track sector =>
    (0, Function.update ps part ((ps part).allocateSector track sector))
  | freeSector part track sector => (0, Function.update ps part ((ps part).freeSector track sector))

/-- The call is about a mounted image and a sector of it; `sectors_free` checks its track itself. -/
def InRange (s : State) : BamCall → Prop
  | isFree part track sector | allocateSector part track sector | freeSector part track sector =>
    Dxx.InRange s part track sector
  | sectorsFree part _ => part < s.maxPart ∧ (s.partition part).Mounted

/-- A call on the buffers and the same call on the images seen through them agree. -/
theorem run_ok {c : BamCall} (hs : Coherent s) (hc : c.InRange s) :
    (c.run s).1 = (c.direct s.through).1 ∧ (c.run s).2.through = (c.direct s.through).2 ∧
      Coherent (c.run s).2 ∧ SameMeta s (c.run s).2 := by
  cases c with
  | isFree part track sector =>
    obtain ⟨s', hrun, hco, hkeep⟩ := isFree_ok hs (Dxx.InRange.inBuffer hc)
    rw [run, hrun, direct]
    exact ⟨rfl, hkeep.through, hco, hkeep.toSameMeta⟩
  | sectorsFree part track =>
    obtain ⟨s', hrun, hco, hkeep⟩ := sectorsFree_ok hs hc.1 hc.2 track
    rw [run, hrun, direct]
    exact ⟨rfl, hkeep.through, hco, hkeep.toSameMeta⟩
  | allocateSector part track sector =>
    obtain ⟨s', hrun, hbecomes⟩ := allocateSector_ok hs (Dxx.InRange.inBuffer hc)
    rw [run, hrun, direct]
    exact ⟨rfl, hbecomes.through, hbecomes.coherent, hbecomes.toSameMeta⟩
  | freeSector part track sector =>
    obtain ⟨s', hrun, hbecomes⟩ := freeSector_ok hs (Dxx.InRange.inBuffer hc)
    rw [run, hrun, direct]
    exact ⟨rfl, hbecomes.through, hbecomes.coherent, hbecomes.toSameMeta⟩

theorem InRange.sameFormat {c : BamCall} (h : c.InRange s) (hsame : SameFormat s s') :
    c.InRange s' := by
  cases c with
  | sectorsFree part track =>
    exact ⟨hsame.maxPart.symm ▸ h.1, (hsame.mounted part).mpr h.2⟩
  | _ => exact Dxx.InRange.sameFormat h hsame

end BamCall

/-- The BAM buffers hold nothing, and no access to an image file fails. -/
structure Started (s : State) : Prop where
  noFault : s.NoFault
  maxPart : s.maxPart ≤ 255
  first : s.bamBuffer.part = 255 ∧ s.bamBuffer.mustflush = false
  second : ∀ b, s.bamBuffer2 = some b → b.part = 255 ∧ b.mustflush = false

theorem BufferOk.of_empty {b : BamBuffer} (h : b.part = 255 ∧ b.mustflush = false) :
    BufferOk s b :=
  ⟨fun _ => h.2, fun hv => absurd h.1 hv, fun hv => absurd h.1 hv, fun hv => absurd h.1 hv⟩

theorem Started.coherent (hs : Started s) : Coherent s :=
  ⟨hs.noFault, hs.maxPart, BufferOk.of_empty hs.first, fun b hb => BufferOk.of_empty (hs.second b hb),
    fun b hb hvalid => absurd (hs.second b hb).1 hvalid⟩

theorem Started.through (hs : Started s) : s.through = s.partition := by
  have hview : s.view = s.image := by
    rw [State.view, patch_clean hs.first.2]
    cases hb : s.bamBuffer2 with
    | none => rfl
    | some b => exact patch_clean (hs.second b hb).2
  funext p
  rw [State.through, hview]
  rfl

/-- Every call on the BAM returns what it would return on the image files, the two buffers never
hold the same sector, and `d64_bam_commit` leaves the images that the direct calls produce. -/
theorem bamCalls_transparent (hs : Started s) (calls : List BamCall)
    (hcalls : ∀ c ∈ calls, c.InRange s) :
    (Run.run BamCall.run s calls).1 = (Run.run BamCall.direct s.partition calls).1 ∧
      Run.Always BamCall.run (fun s => ∀ b, s.bamBuffer2 = some b → s.bamBuffer.part ≠ 255 →
        b.part ≠ 255 → ¬SameTag s.bamBuffer b) s calls ∧
      (d64BamCommit (Run.run BamCall.run s calls).2).2.partition =
        (Run.run BamCall.direct s.partition calls).2 := by
  have hmeets : Run.Meets BamCall.run (fun _ c => c.InRange s) s calls :=
    Run.meets_of_forall hcalls
  have halways : Run.Always BamCall.run (fun s' => Coherent s' ∧ SameMeta s s') s calls := by
    refine Run.always_of_step (fun s' c hs' hc => ?_) ⟨hs.coherent, SameMeta.refl s⟩ hmeets
    obtain ⟨-, -, hco, hmeta⟩ := BamCall.run_ok hs'.1 (hc.sameFormat hs'.2.toSameFormat)
    exact ⟨hco, hs'.2.trans hmeta⟩
  obtain ⟨hres, hrel⟩ := Run.run_simulates BamCall.direct
    (fun s' ps => Coherent s' ∧ SameMeta s s' ∧ s'.through = ps) (fun s' ps c hs' hc => by
      obtain ⟨hco, hmeta, rfl⟩ := hs'
      obtain ⟨hres, hthrough, hco', hmeta'⟩ := BamCall.run_ok hco (hc.sameFormat hmeta.toSameFormat)
      exact ⟨hres, hco', hmeta.trans hmeta', hthrough⟩)
    ⟨hs.coherent, SameMeta.refl s, hs.through⟩ hmeets
  refine ⟨hres, halways.mono fun s' hs' b hb _ hvalid => hs'.1.apart b hb hvalid, ?_⟩
  rw [d64BamCommit_through hrel.1, hrel.2.2]

/-- A D71 and a D41 image with every BAM byte 0xff, of which only the first BAM buffer is left. -/
def twoImages : State where
  partition part := if part = 0 then ⟨⟨.d71, false⟩, d71param, fun _ => 0xff, true⟩
    else ⟨⟨.d41, false⟩, d41param, fun _ => 0xff, true⟩
  maxPart := 2
  bamBuffer := ⟨255, 0, 0, false, fun _ => 0, 0⟩
  bamBuffer2 := none
  errorcache := ⟨255, 0, fun _ => 0⟩
  scratch _ := 0
  error := ⟨0, 0, 0⟩
  io _ := .ok
  sysFree _ := none

theorem twoImages_transparent :
    (Run.run BamCall.run twoImages [.allocateSector 0 40 1, .sectorsFree 1 1, .isFree 0 40 1]).1 =
      [0, 255, 0] := by
  have h0 : (twoImages.partition 0).Mounted := ⟨349696, [], by decide⟩
  have h1 : (twoImages.partition 1).Mounted := ⟨174848, [], by decide⟩
  have hrun := bamCalls_transparent (s := twoImages)
    ⟨rfl, by decide, ⟨rfl, rfl⟩, by rintro _ ⟨⟩⟩
    [.allocateSector 0 40 1, .sectorsFree 1 1, .isFree 0 40 1] (by
      simp only [List.forall_mem_cons, List.not_mem_nil, false_implies, implies_true, and_true]
      exact ⟨⟨by decide, h0, by decide⟩, ⟨by decide, h1⟩, by decide, h0, by decide⟩)
  rw [hrun.1]
  decide

end NoDiskEmu.Dxx
