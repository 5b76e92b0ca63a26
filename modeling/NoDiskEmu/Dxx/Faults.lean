import NoDiskEmu.Dxx.Sector
import NoDiskEmu.Dxx.Window

/-! The BAM buffers where accesses to the image files fail. The operations on the BAM are split into
the steps that can be told apart: `move_bam_window`, the change of a byte that it points to, and
`d64_bam_commit`. Beside the state goes what the images hold once every change has been applied. -/

namespace NoDiskEmu.Dxx

open Library

variable {s s' : State} {part track sector : ℕ}

/-- The step taken by an operation on the BAM. -/
inductive BamStep
  | window (part track : ℕ) (data : BamData)
  | change (pos : ℕ) (value : UInt8)
  | commit

/-- A state, and the images with all changes to their BAMs. -/
structure Logged where
  state : State
  content : ℕ → ℕ → UInt8

namespace BamStep

/-- A step: the result code, the state after it, and the contents it stands for. -/
def run (x : Logged) : BamStep → ℕ × Logged
  | window part track data =>
    let m := moveBamWindow x.state part track data
    (m.1, ⟨m.2.2, x.content⟩)
  | change pos value =>
    let b := x.state.bamBuffer
    (0, ⟨setBamByte x.state pos value, Function.update x.content b.part
      (Function.update (x.content b.part) (x.state.offset b.part b.track b.sector + pos) value)⟩)
  | commit =>
    let c := d64BamCommit x.state
    (c.1, ⟨c.2, x.content⟩)

/-- The window is moved for a track number of any image, and a byte is changed only in a buffer that
holds a sector. -/
def InRange (x : Logged) : BamStep → Prop
  | window part track _ => part < x.state.maxPart ∧ track ≤ 255
  | change pos _ => x.state.bamBuffer.part ≠ 255 ∧ pos < 256
  | commit => True

end BamStep

/-- The buffers do what they are for: one with a tag holds the sector with all changes, one that need
not be flushed agrees with the image, and what the image does not hold yet is in a buffer that must be
flushed. -/
structure Held (x : Logged) : Prop where
  tagged : ∀ b, x.state.HasBuffer b → b.part ≠ 255 → ∀ i < 256,
    b.data i = x.content b.part (x.state.offset b.part b.track b.sector + i)
  flushed : ∀ b, x.state.HasBuffer b → b.part ≠ 255 → b.mustflush = false → ∀ i < 256,
    x.state.image b.part (x.state.offset b.part b.track b.sector + i) = b.data i
  pending : ∀ part o, x.state.image part o = x.content part o ∨
    ∃ b, x.state.HasBuffer b ∧ b.part = part ∧ b.mustflush = true ∧
      x.state.offset b.part b.track b.sector ≤ o ∧ o < x.state.offset b.part b.track b.sector + 256

/-- A write of `d64_bam_commit` fails. -/
def CommitFails (s : State) : Prop := (flushBam s).1 ≠ 0 ∨ (flushBam2 (flushBam s).2).1 ≠ 0

/-! ### The calls on the BAM are made of steps -/

/-- Steps in range lead from `x` to the state `s'`. -/
def Leads (x : Logged) (s' : State) : Prop :=
  ∃ steps, Run.Meets BamStep.run (fun x a => a.InRange x) x steps ∧
    (Run.run BamStep.run x steps).2.state = s'

theorem Leads.refl (x : Logged) : Leads x x.state := ⟨[], trivial, rfl⟩

theorem Leads.step {x : Logged} {a : BamStep} (ha : a.InRange x) (h : Leads (a.run x).2 s') : Leads x s' := by
  obtain ⟨steps, hrange, hstate⟩ := h
  exact ⟨a :: steps, ⟨ha, hrange⟩, hstate⟩

/-- The window can be moved to the track. -/
structure OnTrack (s : State) (part track : ℕ) : Prop where
  maxPart : s.maxPart ≤ 255
  lt : part < s.maxPart
  le : track ≤ 255

theorem OnTrack.sameFormat (h : OnTrack s part track) (hsame : SameFormat s s') : OnTrack s' part track :=
  ⟨hsame.maxPart ▸ h.maxPart, hsame.maxPart ▸ h.lt, h.le⟩

theorem Leads.window {x : Logged} (h : OnTrack x.state part track) (data : BamData)
    (hrest : Leads ⟨(moveBamWindow x.state part track data).2.2, x.content⟩ s') : Leads x s' :=
  Leads.step (a := .window part track data) ⟨h.lt, h.le⟩ hrest

/-- A byte that the window has been moved to may be changed. -/
theorem Leads.change {data : BamData} (h : OnTrack s part track)
    (hmove : (moveBamWindow s part track data).1 = 0) {pos : ℕ} (hpos : pos < 256) (value : UInt8)
    {content : ℕ → ℕ → UInt8}
    (hrest : ∀ content, Leads ⟨setBamByte (moveBamWindow s part track data).2.2 pos value, content⟩ s') :
    Leads ⟨(moveBamWindow s part track data).2.2, content⟩ s' := by
  have hmatch := bamBufferMatch_iff.mp ((moveBamWindow_match s part track data).mpr hmove)
  refine Leads.step (a := .change pos value) ⟨?_, hpos⟩ (hrest _)
  have hlt := h.lt
  have hmax := h.maxPart
  rw [show (moveBamWindow s part track data).2.2.bamBuffer.part = part from hmatch.1]
  omega

theorem Leads.adjustCount {x : Logged} (h : OnTrack x.state part track) (setCount : UInt8 → Option UInt8) :
    Leads x (adjustCount x.state part track setCount).2 := by
  refine Leads.window h .freecount ?_
  rw [Dxx.adjustCount]
  split
  · exact Leads.refl _
  · next hmove =>
    split
    · exact Leads.refl _
    · refine Leads.change h (not_not.mp hmove) ?_ _ fun content => Leads.refl _
      rw [moveBamWindow_pos]
      exact (bamPosition_freecount _ _).1

theorem Leads.flipSector {x : Logged} (hmax : x.state.maxPart ≤ 255)
    (hr : InBuffer x.state part track sector) (setBit : UInt8 → UInt8 → UInt8)
    (setCount : UInt8 → Option UInt8) :
    Leads x (flipSector x.state part track sector setBit setCount).2 := by
  have h : OnTrack x.state part track := ⟨hmax, hr.lt, hr.le⟩
  refine Leads.window h .bitfield ?_
  rw [Dxx.flipSector]
  dsimp only
  split
  · exact Leads.refl _
  · next hmove =>
    have hpos : (moveBamWindow x.state part track .bitfield).2.1 + sector / 8 < 256 := by
      rw [moveBamWindow_pos]
      exact hr.pos
    refine Leads.change h (not_not.mp hmove) hpos
      (setBit ((moveBamWindow x.state part track .bitfield).2.2.bamBuffer.data
        ((moveBamWindow x.state part track .bitfield).2.1 + sector / 8))
        (sectorMask (x.state.isDnp part) sector)) fun content => ?_
    · split
      · exact Leads.refl _
      · have hsame := moveBamWindow_sameFormat x.state part track .bitfield
        exact Leads.adjustCount (h.sameFormat (hsame.congr rfl rfl)) setCount

/-- Every call on the BAM is made of steps. -/
theorem BamCall.leads {c : BamCall} {x : Logged} (hmax : x.state.maxPart ≤ 255) (hc : c.InRange x.state) :
    Leads x (c.run x.state).2 := by
  -- the sector is looked up first, and then changed
  have hlook : ∀ {part track sector : ℕ}, InBuffer x.state part track sector → ∀ {s'},
      Leads ⟨(Dxx.isFree x.state part track sector).2, x.content⟩ s' → Leads x s' := by
    intro part track sector hr s' hrest
    rw [isFree_snd] at hrest
    exact Leads.window ⟨hmax, hr.lt, hr.le⟩ .bitfield hrest
  have hflip : ∀ {part track sector : ℕ}, InBuffer x.state part track sector → ∀ setBit setCount,
      Leads ⟨(Dxx.isFree x.state part track sector).2, x.content⟩
        (flipSector (Dxx.isFree x.state part track sector).2 part track sector setBit setCount).2 := by
    intro part track sector hr setBit setCount
    have hsame := isFree_sameFormat x.state part track sector
    exact Leads.flipSector (hsame.maxPart ▸ hmax) (hr.sameFormat hsame) setBit setCount
  cases c with
  | isFree part track sector => exact hlook hc.inBuffer (Leads.refl _)
  | sectorsFree part track =>
    rw [run, Dxx.sectorsFree]
    split
    · exact Leads.refl x
    · next hin =>
      have hle : track ≤ x.state.lastTrack part := by omega
      have hon : OnTrack x.state part track := ⟨hmax, hc.1, hle.trans hc.2.lastTrack_le⟩
      refine Leads.window hon .freecount ?_
      dsimp only
      split <;> exact Leads.refl _
  | allocateSector part track sector =>
    refine hlook hc.inBuffer ?_
    rw [run, Dxx.allocateSector]
    dsimp only
    split
    · exact Leads.refl _
    · split
      · exact hflip hc.inBuffer _ _
      · exact Leads.refl _
  | freeSector part track sector =>
    refine hlook hc.inBuffer ?_
    rw [run, Dxx.freeSector]
    dsimp only
    split
    · exact Leads.refl _
    · split
      · exact hflip hc.inBuffer _ _
      · exact Leads.refl _

/-! ### Steps that fail without harm -/

/-- The buffer is written when it is flushed. -/
def State.Writes (s : State) (b : BamBuffer) : Prop := b.mustflush = true ∧ b.part < s.maxPart

instance (s : State) (b : BamBuffer) : Decidable (s.Writes b) := inferInstanceAs (Decidable (_ ∧ _))

/-- The bytes that an access leaves when it does not complete. -/
def Io.junk? : Io → Option (ℕ → UInt8)
  | .ok => none
  | .short junk => some junk
  | .failed _ junk => some junk

theorem Io.junk?_eq_none {io : Io} : io.junk? = none ↔ io = .ok := by
  cases io <;> simp [Io.junk?]

/-- A read that fails leaves what the buffer holds: it holds no sector, or its bytes stay. -/
def Io.Leaves (io : Io) (b : BamBuffer) : Prop :=
  ∀ junk, io.junk? = some junk → b.part = 255 ∨ ∀ i < 256, junk i = b.data i

/-- The flush before a load does not fail, and the read leaves what the buffer holds if it fails. -/
def State.LoadsSafely (s : State) : Prop :=
  (s.Writes s.bamBuffer → s.io 0 = .ok) ∧
    (s.io (if s.Writes s.bamBuffer then 1 else 0)).Leaves s.bamBuffer

/-- No write of the step fails, and no read that fails changes a buffer that holds a sector. -/
def BamStep.Harmless (x : Logged) : BamStep → Prop
  | window part track data =>
    let w := bamPosition (x.state.type part) track data
    bamBufferMatch x.state.bamBuffer part w.1 w.2.1 = true ∨
      bamBufferMatch (chooseBam x.state).bamBuffer part w.1 w.2.1 = true ∨
      (chooseBam x.state).LoadsSafely
  | change _ _ => True
  | commit =>
    (x.state.Writes x.state.bamBuffer → x.state.io 0 = .ok) ∧
      ∀ b, x.state.bamBuffer2 = some b → x.state.Writes b →
        x.state.io (if x.state.Writes x.state.bamBuffer then 1 else 0) = .ok

/-! ### The same state without faults -/

/-- The state in which no coming access fails. -/
def State.calm (s : State) : State := { s with io := fun _ => .ok }

@[simp] theorem State.calm_calm (s : State) : s.calm.calm = s.calm := rfl

@[simp] theorem State.view_calm (s : State) : s.calm.view = s.view := rfl

theorem imageWrite_calm (h : s.io 0 = .ok) (part off n : ℕ) (data : ℕ → UInt8) :
    (imageWrite s part off n data).1 = 0 ∧
      (imageWrite s part off n data).2.calm = (imageWrite s.calm part off n data).2 ∧
      (imageWrite s part off n data).2.io = fun n => s.io (n + 1) := by
  rw [imageWrite, h]
  exact ⟨rfl, rfl, rfl⟩

/-- A flush whose write succeeds is the one without faults. -/
theorem bamBufferFlush_calm {b : BamBuffer} (h : s.Writes b → s.io 0 = .ok) :
    (bamBufferFlush s b).1 = 0 ∧ (bamBufferFlush s b).2.1 = (bamBufferFlush s.calm b).2.1 ∧
      (bamBufferFlush s b).2.2.calm = (bamBufferFlush s.calm b).2.2 ∧
      (bamBufferFlush s b).2.2.io = fun n => s.io (n + if s.Writes b then 1 else 0) := by
  rw [bamBufferFlush, bamBufferFlush]
  by_cases hwrites : s.Writes b
  · have hcond : (b.mustflush && decide (b.part < s.maxPart)) = true := by simpa [State.Writes] using hwrites
    have hcond' : (b.mustflush && decide (b.part < s.calm.maxPart)) = true := hcond
    obtain ⟨hres, hstate, hio⟩ := imageWrite_calm (h hwrites) b.part
      (s.offset b.part b.track b.sector) 256 b.data
    rw [if_pos hcond, if_pos hcond', if_pos hwrites]
    exact ⟨hres, rfl, hstate, hio⟩
  · have hcond : ¬(b.mustflush && decide (b.part < s.maxPart)) = true := by simpa [State.Writes] using hwrites
    have hcond' : ¬(b.mustflush && decide (b.part < s.calm.maxPart)) = true := hcond
    rw [if_neg hcond, if_neg hcond', if_neg hwrites]
    exact ⟨rfl, rfl, rfl, rfl⟩

theorem flushBam_calm (h : s.Writes s.bamBuffer → s.io 0 = .ok) :
    (flushBam s).1 = 0 ∧ (flushBam s).2.calm = (flushBam s.calm).2 ∧
      (flushBam s).2.io = fun n => s.io (n + if s.Writes s.bamBuffer then 1 else 0) := by
  obtain ⟨hres, hbuf, hstate, hio⟩ := bamBufferFlush_calm h
  refine ⟨hres, ?_, hio⟩
  show ({ (bamBufferFlush s s.bamBuffer).2.2.calm with
    bamBuffer := (bamBufferFlush s s.bamBuffer).2.1 } : State) = _
  rw [hstate, hbuf]
  rfl

theorem flushBam2_calm (h : ∀ b, s.bamBuffer2 = some b → s.Writes b → s.io 0 = .ok) :
    (flushBam2 s).1 = 0 ∧ (flushBam2 s).2.calm = (flushBam2 s.calm).2 := by
  rw [flushBam2, flushBam2]
  have hsecond : s.calm.bamBuffer2 = s.bamBuffer2 := rfl
  rw [hsecond]
  cases hb : s.bamBuffer2 with
  | none => exact ⟨rfl, rfl⟩
  | some b =>
    obtain ⟨hres, hbuf, hstate, -⟩ := bamBufferFlush_calm (h b hb)
    refine ⟨hres, ?_⟩
    show ({ (bamBufferFlush s b).2.2.calm with
      bamBuffer2 := some (bamBufferFlush s b).2.1 } : State) = _
    rw [hstate, hbuf]

theorem chooseBam_calm (s : State) : (chooseBam s).calm = chooseBam s.calm := by
  have hswap : ∀ s : State, (bamBufferSwap s).calm = bamBufferSwap s.calm := by
    intro s
    rw [bamBufferSwap, bamBufferSwap]
    have hsecond : s.calm.bamBuffer2 = s.bamBuffer2 := rfl
    rw [hsecond]
    cases s.bamBuffer2 <;> rfl
  have halloc : (bamBufferAlloc2 s).1 = (bamBufferAlloc2 s.calm).1 ∧
      (bamBufferAlloc2 s).2.calm = (bamBufferAlloc2 s.calm).2 := by
    rw [bamBufferAlloc2, bamBufferAlloc2]
    have hfree : s.calm.sysFree = s.sysFree := rfl
    rw [hfree]
    cases s.sysFree 0 <;> exact ⟨rfl, rfl⟩
  rw [chooseBam, chooseBam]
  have hsecond : s.calm.bamBuffer2 = s.bamBuffer2 := rfl
  have hfirst : s.calm.bamBuffer = s.bamBuffer := rfl
  rw [hsecond, hfirst]
  cases s.bamBuffer2 with
  | some b => exact hswap s
  | none =>
    dsimp only
    rw [← halloc.1, ← halloc.2]
    split
    · split
      · rfl
      · exact hswap _
    · rfl

theorem imageRead_junk {junk : ℕ → UInt8} (h : (s.io 0).junk? = some junk) (part off n : ℕ)
    (buf : ℕ → UInt8) :
    ∃ code error, code ≠ 0 ∧
      imageRead s part off n buf = (code, Memory.write buf 0 n junk, { s.nextIo with error }) := by
  rw [imageRead]
  cases hio : s.io 0 with
  | ok =>
    rw [hio] at h
    cases h
  | short junk' =>
    rw [hio] at h
    cases h
    exact ⟨1, s.error, by decide, rfl⟩
  | failed error junk' =>
    rw [hio] at h
    cases h
    exact ⟨2, error, by decide, rfl⟩

theorem loadBam_calm (hflush : s.Writes s.bamBuffer → s.io 0 = .ok)
    (hread : s.io (if s.Writes s.bamBuffer then 1 else 0) = .ok) (part track sector : ℕ) :
    (loadBam s part track sector).2.calm = (loadBam s.calm part track sector).2 := by
  obtain ⟨hres, hstate, hio⟩ := flushBam_calm hflush
  obtain ⟨hres', -, -⟩ := flushBam_calm (s := s.calm) fun _ => rfl
  have hok : (flushBam s).2.io 0 = .ok := by
    rw [hio]
    dsimp only
    rwa [Nat.zero_add]
  rw [loadBam, loadBam]
  dsimp only
  rw [if_neg (not_not.mpr hres), if_neg (not_not.mpr hres'), ← hstate, imageRead, imageRead, hok]
  rfl

/-- A load whose read fails changes at most the bytes of the target buffer. -/
theorem loadBam_junk (hflush : s.Writes s.bamBuffer → s.io 0 = .ok) {junk : ℕ → UInt8}
    (hread : (s.io (if s.Writes s.bamBuffer then 1 else 0)).junk? = some junk) (part track sector : ℕ) :
    ∃ error, (loadBam s part track sector).2.calm = { (flushBam s.calm).2 with
      bamBuffer := { (flushBam s.calm).2.bamBuffer with
        data := Memory.write (flushBam s.calm).2.bamBuffer.data 0 256 junk }
      error } := by
  obtain ⟨hres, hstate, hio⟩ := flushBam_calm hflush
  have hjunk : ((flushBam s).2.io 0).junk? = some junk := by
    rw [hio]
    dsimp only
    rwa [Nat.zero_add]
  obtain ⟨code, error, hcode, hrun⟩ := imageRead_junk hjunk part
    ((flushBam s).2.offset part track sector) 256 (flushBam s).2.bamBuffer.data
  refine ⟨error, ?_⟩
  rw [loadBam]
  dsimp only
  rw [if_neg (not_not.mpr hres), hrun]
  dsimp only
  rw [if_pos hcode, ← hstate]
  rfl

/-! ### The invariant -/

/-- Apart from the accesses to come the buffers are those of a run without faults, and the changes are
what is seen through them. -/
structure Intact (x : Logged) : Prop where
  coherent : Coherent x.state.calm
  view : x.state.view = x.content

/-- Other bytes in the first buffer are not seen, if it holds no sector. -/
theorem Coherent.setData (hs : Coherent s) (hempty : s.bamBuffer.part = 255) (data : ℕ → UInt8)
    (error : DosError) :
    Coherent { s with bamBuffer := { s.bamBuffer with data }, error } ∧
      State.view { s with bamBuffer := { s.bamBuffer with data }, error } = s.view := by
  have hclean : s.bamBuffer.mustflush = false := hs.first.empty hempty
  refine ⟨⟨hs.noFault, hs.maxPart, BufferOk.of_empty ⟨hempty, hclean⟩,
    fun b hb => (hs.second b hb).congr rfl rfl, hs.apart⟩, ?_⟩
  rw [State.view_eq, State.view_eq, patch_clean hclean, patch_clean (by exact hclean)]
  rfl

theorem loadBam_intact (hs : Coherent s.calm) (hsafe : s.LoadsSafely) (hpart : part < s.maxPart)
    (hbam : IsBamSector (s.type part) track sector)
    (hother : ∀ b, s.bamBuffer2 = some b → ¬bamBufferMatch b part track sector = true) :
    Coherent (loadBam s part track sector).2.calm ∧ Keeps s.calm (loadBam s part track sector).2.calm := by
  obtain ⟨hflush, hread⟩ := hsafe
  cases hjunk : (s.io (if s.Writes s.bamBuffer then 1 else 0)).junk? with
  | none =>
    obtain ⟨s', hload, hco, hkeep, -⟩ := loadBam_ok (s := s.calm) hs hpart hbam hother
    rw [loadBam_calm hflush (Io.junk?_eq_none.mp hjunk), hload]
    exact ⟨hco, hkeep⟩
  | some junk =>
    obtain ⟨s', hflushed, hco, hkeep, hb1, -⟩ := flushBam_ok hs
    obtain ⟨error, hstate⟩ := loadBam_junk hflush hjunk part track sector
    rw [hstate, hflushed]
    dsimp only
    rcases hread junk hjunk with hempty | hsame
    · have hempty' : s'.bamBuffer.part = 255 := by
        rw [hb1]
        exact hempty
      obtain ⟨hco', hview⟩ := hco.setData hempty'
        (Memory.write s'.bamBuffer.data 0 256 junk) error
      exact ⟨hco', hkeep.trans ⟨(SameMeta.refl s').congr rfl rfl rfl rfl rfl, hview⟩⟩
    · have hdata : Memory.write s'.bamBuffer.data 0 256 junk = s'.bamBuffer.data := by
        refine Memory.write_same fun i hi => ?_
        rw [hsame i hi, hb1, Nat.zero_add]
        rfl
      rw [hdata]
      obtain ⟨hco', hkeep'⟩ := setError_ok hco error.code error.track error.sector
      exact ⟨hco', hkeep.trans hkeep'⟩

theorem moveBamWindow_intact (hs : Coherent s.calm) {data : BamData} (hpart : part < s.maxPart)
    (htrack : track ≤ 255)
    (hsafe : (BamStep.window part track data).Harmless ⟨s, s.view⟩) :
    Coherent (moveBamWindow s part track data).2.2.calm ∧
      Keeps s.calm (moveBamWindow s part track data).2.2.calm := by
  have hbam := isBamSector_bamPosition (s.type part) htrack data
  obtain ⟨hco, hkeep⟩ := chooseBam_ok hs
  rw [← chooseBam_calm] at hco hkeep
  rw [moveBamWindow]
  dsimp only
  split
  · exact ⟨hs, Keeps.refl s.calm⟩
  · next hno =>
    split
    · exact ⟨hco, hkeep⟩
    · next hno' =>
      have hloads := (hsafe.resolve_left hno).resolve_left hno'
      have hpart' : part < (chooseBam s).maxPart := by
        rw [show (chooseBam s).maxPart = s.maxPart from hkeep.maxPart]
        exact hpart
      obtain ⟨hco', hkeep'⟩ := loadBam_intact hco hloads hpart'
        (by rw [show (chooseBam s).type = s.type from hkeep.type]; exact hbam)
        fun b hb => by rw [chooseBam_second hb]; exact hno
      exact ⟨hco', hkeep.trans hkeep'⟩

theorem d64BamCommit_intact (hs : Coherent s.calm) (hsafe : BamStep.commit.Harmless ⟨s, s.view⟩) :
    Coherent (d64BamCommit s).2.calm ∧ (d64BamCommit s).2.view = s.view ∧ ¬CommitFails s := by
  obtain ⟨hfirst, hsecond⟩ := hsafe
  obtain ⟨hres, hstate, hio⟩ := flushBam_calm hfirst
  obtain ⟨s1, hflush, hco1, hkeep1, -, hb2⟩ := flushBam_ok hs
  rw [hflush] at hstate
  have hb2' : (flushBam s).2.bamBuffer2 = s.bamBuffer2 := by
    have hsame := congrArg State.bamBuffer2 hstate
    exact hsame.trans hb2
  have hmax : (flushBam s).2.maxPart = s.maxPart := by
    have hsame := congrArg State.maxPart hstate
    exact hsame.trans hkeep1.maxPart
  obtain ⟨hres', hstate'⟩ := flushBam2_calm (s := (flushBam s).2) (fun b hb hwrites => by
    rw [hb2'] at hb
    rw [hio]
    dsimp only
    rw [Nat.zero_add]
    exact hsecond b hb ⟨hwrites.1, hmax ▸ hwrites.2⟩)
  rw [hstate] at hstate'
  obtain ⟨s2, hflush2, hco2, hkeep2, -, -⟩ := flushBam2_ok hco1
  rw [hflush2] at hstate'
  have hcommit : (d64BamCommit s).2.calm = s2 := hstate'
  refine ⟨hcommit ▸ hco2, ?_, ?_⟩
  · rw [← State.view_calm, hcommit]
    exact hkeep2.view.trans hkeep1.view
  · rintro (hfail | hfail)
    · exact hfail hres
    · exact hfail hres'

theorem Coherent.tagged (hs : Coherent s) {b : BamBuffer} (hb : s.HasBuffer b) (hvalid : b.part ≠ 255)
    {i : ℕ} (hi : i < 256) : b.data i = s.view b.part (s.offset b.part b.track b.sector + i) := by
  rcases hb with rfl | hb
  · exact hs.data_eq_view hvalid hi
  · -- the second buffer is the first one after a swap
    obtain ⟨hco, hkeep⟩ := bamBufferSwap_ok hs
    have hfirst : (bamBufferSwap s).bamBuffer = b := by
      rw [bamBufferSwap, hb]
    have hdata := hco.data_eq_view (by rw [hfirst]; exact hvalid) hi
    rwa [hfirst, hkeep.view, hkeep.offset] at hdata

theorem patch_apply (type : ℕ → DxxType) (b : BamBuffer) (images : ℕ → ℕ → UInt8) (part o : ℕ) :
    patch type b images part o = images part o ∨
      b.part = part ∧ b.mustflush = true ∧ sectorOffset (type b.part) b.track b.sector ≤ o ∧
        o < sectorOffset (type b.part) b.track b.sector + 256 := by
  rw [patch]
  split
  · next hm =>
    by_cases hpart : part = b.part
    · subst hpart
      rw [Function.update_self]
      by_cases ho : sectorOffset (type b.part) b.track b.sector ≤ o ∧
          o < sectorOffset (type b.part) b.track b.sector + 256
      · exact .inr ⟨rfl, hm, ho⟩
      · exact .inl (Memory.write_outside (by omega))
    · exact .inl (by rw [Function.update_of_ne hpart])
  · exact .inl rfl

theorem Intact.held {x : Logged} (h : Intact x) : Held x := by
  refine ⟨fun b hb hvalid i hi => ?_, fun b hb hvalid hclean i hi => ?_, fun part o => ?_⟩
  · have hdata := h.coherent.tagged hb hvalid hi
    rw [State.view_calm, h.view] at hdata
    exact hdata
  · exact ((h.coherent.bufferOk hb).clean hvalid hclean i hi).symm
  · rw [← h.view, State.view_eq, State.behind]
    cases hsecond : x.state.bamBuffer2 with
    | none =>
      rcases patch_apply x.state.type x.state.bamBuffer x.state.image part o with heq | hin
      · exact .inl heq.symm
      · exact .inr ⟨_, .inl rfl, hin⟩
    | some b =>
      rcases patch_apply x.state.type x.state.bamBuffer _ part o with heq | hin
      · rcases patch_apply x.state.type b x.state.image part o with heq' | hin'
        · exact .inl (heq.trans heq').symm
        · exact .inr ⟨b, .inr hsecond, hin'⟩
      · exact .inr ⟨_, .inl rfl, hin⟩

/-- A step that does no harm keeps the buffers intact. -/
theorem BamStep.intact_run {x : Logged} {a : BamStep} (h : Intact x) (hrange : a.InRange x)
    (hsafe : a.Harmless x) : Intact (a.run x).2 := by
  obtain ⟨s, content⟩ := x
  obtain ⟨hco, hview⟩ := h
  dsimp only at hco hview
  subst hview
  cases a with
  | window part track data =>
    obtain ⟨hpart, htrack⟩ := hrange
    obtain ⟨hco', hkeep⟩ := moveBamWindow_intact hco hpart htrack hsafe
    exact ⟨hco', hkeep.view⟩
  | change pos value =>
    obtain ⟨hvalid, hpos⟩ := hrange
    obtain ⟨hco', -, hview⟩ := setBamByte_ok hco hvalid hpos value
    exact ⟨hco', hview⟩
  | commit =>
    obtain ⟨hco', hview, -⟩ := d64BamCommit_intact hco hsafe
    exact ⟨hco', hview⟩

/-! ### Operations on a sector -/

theorem imageRead_succeeds {off n : ℕ} {buf : ℕ → UInt8} (h : (imageRead s part off n buf).1 = 0) : s.io 0 = .ok := by
  rw [imageRead] at h
  split at h
  · assumption
  · cases h
  · cases h

theorem imageWrite_succeeds {off n : ℕ} {data : ℕ → UInt8} (h : (imageWrite s part off n data).1 = 0) :
    s.io 0 = .ok := by
  rw [imageWrite] at h
  split at h
  · assumption
  · cases h
  · cases h

/-- A window that could be moved is where it is without faults. -/
theorem moveBamWindow_succeeds {data : BamData} (h : (moveBamWindow s part track data).1 = 0) :
    (moveBamWindow s part track data).2.2.calm = (moveBamWindow s.calm part track data).2.2 := by
  have hload : ∀ (s : State) t q, (loadBam s part t q).1 = 0 →
      (loadBam s part t q).2.calm = (loadBam s.calm part t q).2 := by
    intro s t q h
    rw [loadBam] at h
    dsimp only at h
    split at h
    · cases h
    · next hflush =>
      have hwrites : s.Writes s.bamBuffer → s.io 0 = .ok := by
        intro hwrites
        rw [flushBam, bamBufferFlush, if_pos (by simpa [State.Writes] using hwrites)] at hflush
        exact imageWrite_succeeds (not_not.mp hflush)
      split at h
      · next hread => exact absurd h hread
      · next hread =>
        have hok := imageRead_succeeds (not_not.mp hread)
        rw [(flushBam_calm hwrites).2.2] at hok
        dsimp only at hok
        rw [Nat.zero_add] at hok
        exact loadBam_calm hwrites hok part t q
  have hfirst : s.calm.bamBuffer = s.bamBuffer := rfl
  have htype : s.calm.type = s.type := rfl
  rw [moveBamWindow] at h ⊢
  rw [moveBamWindow, hfirst, htype]
  dsimp only at h ⊢
  split at h
  · next hmatch => rw [if_pos hmatch, if_pos hmatch]
  · next hno =>
    rw [if_neg hno, if_neg hno, ← chooseBam_calm]
    have hchosen : (chooseBam s).calm.bamBuffer = (chooseBam s).bamBuffer := rfl
    rw [hchosen]
    split at h
    · next hmatch => rw [if_pos hmatch, if_pos hmatch]
    · next hno' =>
      rw [if_neg hno', if_neg hno']
      exact hload _ _ _ h

/-- The window on a track, if it could be moved there. -/
theorem window_of_succeeds (hs : Coherent s.calm) (hlt : part < s.maxPart) (hle : track ≤ 255) {data : BamData}
    (h : (moveBamWindow s part track data).1 = 0) :
    Window s.calm (moveBamWindow s part track data).2.2.calm part track data := by
  obtain ⟨s', hmove, hw⟩ := moveBamWindow_window hs hlt hle data
  rw [moveBamWindow_succeeds h, hmove]
  exact hw

/-- What `is_free` finds is what the BAM says. -/
theorem isFree_succeeds (hs : Coherent s.calm) (hr : InBuffer s part track sector)
    (h : 0 ≤ (isFree s part track sector).1) :
    (isFree s part track sector).1 = (if (s.through part).isFree track sector then 1 else 0) ∧
      Coherent (isFree s part track sector).2.calm ∧ Keeps s.calm (isFree s part track sector).2.calm := by
  have hmove : (moveBamWindow s part track .bitfield).1 = 0 := by
    by_contra hfail
    rw [isFree] at h
    dsimp only at h
    rw [if_pos hfail] at h
    exact absurd h (show ¬(0 : ℤ) ≤ -1 by decide)
  have hw := window_of_succeeds hs hr.lt hr.le hmove
  refine ⟨?_, by rw [isFree_snd]; exact hw.coherent, by rw [isFree_snd]; exact hw.toKeeps⟩
  have hread := hw.read _ hr.pos
  rw [isFree]
  dsimp only
  rw [if_neg (not_not.mpr hmove), moveBamWindow_pos]
  exact congrArg (fun byte => if Bits.test byte (sectorMask (s.isDnp part) sector) = true then (1 : ℤ) else 0) hread

theorem adjustCount_intact (hs : Coherent s.calm) (hr : InBuffer s part track sector)
    (setCount : UInt8 → Option UInt8) (hsafe : (BamStep.window part track .freecount).Harmless ⟨s, s.view⟩) :
    Becomes s.calm (adjustCount s part track setCount).2.calm part
      (if (adjustCount s part track setCount).1 = 0 then (s.through part).adjustCount track setCount
        else s.through part) := by
  have hr' : InBuffer s.calm part track sector := ⟨hr.lt, hr.le, hr.pos⟩
  obtain ⟨s', hcalm, hbecomes⟩ := adjustCount_ok hs hr' setCount
  obtain ⟨hco, hkeep⟩ := moveBamWindow_intact hs hr.lt hr.le hsafe
  by_cases hmove : (moveBamWindow s part track .freecount).1 = 0
  · have hstate := moveBamWindow_succeeds hmove
    obtain ⟨s1, hmove', -⟩ := moveBamWindow_window hs hr.lt hr.le .freecount
    have hpos : (moveBamWindow s part track .freecount).2.1 = (bamPosition (s.calm.type part) track .freecount).2.2 :=
      moveBamWindow_pos s part track .freecount
    have hdata : (moveBamWindow s part track .freecount).2.2.bamBuffer = s1.bamBuffer := by
      rw [hmove'] at hstate
      have hbuffer := congrArg State.bamBuffer hstate
      exact hbuffer
    have hsame : (adjustCount s part track setCount).1 = 0 ∧ (adjustCount s part track setCount).2.calm = s' := by
      rw [adjustCount, hmove'] at hcalm
      rw [adjustCount]
      dsimp only at hcalm ⊢
      rw [if_neg (not_not.mpr rfl)] at hcalm
      rw [if_neg (not_not.mpr hmove), hpos, hdata]
      rw [hmove'] at hstate
      cases hset : setCount (s1.bamBuffer.data (bamPosition (s.calm.type part) track .freecount).2.2) with
      | none =>
        rw [hset] at hcalm
        exact ⟨rfl, hstate.trans (congrArg Prod.snd hcalm)⟩
      | some count =>
        rw [hset] at hcalm
        refine ⟨rfl, Eq.trans ?_ (congrArg Prod.snd hcalm)⟩
        exact congrArg (setBamByte · (bamPosition (s.calm.type part) track .freecount).2.2 count) hstate
    rw [if_pos hsame.1, hsame.2]
    exact hbecomes
  · have hfail : adjustCount s part track setCount = (1, (moveBamWindow s part track .freecount).2.2) := by
      rw [adjustCount]
      exact if_pos hmove
    rw [hfail, if_neg (show ¬(1 : ℕ) = 0 by decide)]
    exact Becomes.of_keeps hkeep hco

/-- The state of `allocate_sector` or `free_sector` once the bit of the sector has been changed. -/
def flipped (s : State) (part track sector : ℕ) (setBit : UInt8 → UInt8 → UInt8) : State :=
  let pos := (bamPosition (s.type part) track .bitfield).2.2 + sector / 8
  setBamByte s pos (setBit (s.bamBuffer.data pos) (sectorMask (s.isDnp part) sector))

/-- The bit is changed in any case, the counter if its BAM sector can be had. -/
theorem flipSector_intact (hs : Coherent s.calm) (hr : InBuffer s part track sector)
    (hmatch : bamBufferMatch s.bamBuffer part (bamPosition (s.type part) track .bitfield).1
      (bamPosition (s.type part) track .bitfield).2.1 = true) (setBit : UInt8 → UInt8 → UInt8)
    (setCount : UInt8 → Option UInt8) (hsafe : ¬s.isDnp part = true → (BamStep.window part track .freecount).Harmless
      ⟨flipped s part track sector setBit, (flipped s part track sector setBit).view⟩) :
    Becomes s.calm (flipSector s part track sector setBit setCount).2.calm part
      (if (flipSector s part track sector setBit setCount).1 = 0 then
          (s.through part).flipSector track sector setBit setCount
        else (s.through part).setByte ((s.through part).bitAddress track sector)
          (setBit ((s.through part).image ((s.through part).bitAddress track sector))
            (sectorMask (s.through part).isDnp sector))) := by
  have hmove := moveBamWindow_of_match hmatch
  have hw := window_of_succeeds hs hr.lt hr.le (congrArg Prod.fst hmove)
  rw [hmove] at hw
  have hread := hw.read _ hr.pos
  have hset := hw.write _ (setBit (s.bamBuffer.data ((bamPosition (s.type part) track .bitfield).2.2 + sector / 8))
    (sectorMask (s.isDnp part) sector)) hr.pos
  have hbyte : s.bamBuffer.data ((bamPosition (s.type part) track .bitfield).2.2 + sector / 8) =
      (s.through part).image ((s.through part).bitAddress track sector) := hread
  have hflipped : Becomes s.calm (flipped s part track sector setBit).calm part ((s.through part).setByte
      ((s.through part).bitAddress track sector) (setBit ((s.through part).image
        ((s.through part).bitAddress track sector)) (sectorMask (s.through part).isDnp sector))) := by
    rw [← hbyte]
    exact hset
  by_cases hdnp : s.isDnp part = true
  · have hrun : flipSector s part track sector setBit setCount = (0, flipped s part track sector setBit) := by
      rw [flipSector, hmove]
      dsimp only
      rw [if_neg (not_not.mpr rfl), if_pos hdnp]
      rfl
    rw [hrun, if_pos rfl, Partition.flipSector]
    dsimp only
    rw [if_pos (show (s.through part).isDnp = true from hdnp)]
    exact hflipped
  · have hrun : flipSector s part track sector setBit setCount =
        adjustCount (flipped s part track sector setBit) part track setCount := by
      rw [flipSector, hmove]
      dsimp only
      rw [if_neg (not_not.mpr rfl), if_neg hdnp]
      rfl
    have hcount := adjustCount_intact (s := flipped s part track sector setBit) hflipped.coherent
      (hr.sameFormat ((SameFormat.refl s).congr rfl rfl)) setCount (hsafe hdnp)
    rw [hrun, Partition.flipSector]
    rw [if_neg (show ¬(s.through part).isDnp = true from hdnp)]
    have hthrough : (flipped s part track sector setBit).through part = _ := hflipped.through_self
    rw [hthrough] at hcount
    exact hflipped.trans hcount

/-- The accesses of `free_sector` do no harm to the BAM buffers. -/
structure FreesSafely (s : State) (part track sector : ℕ) : Prop where
  look : (BamStep.window part track .bitfield).Harmless ⟨s, s.view⟩
  count : (isFree s part track sector).1 = 0 → ¬s.isDnp part = true → (BamStep.window part track .freecount).Harmless
    ⟨flipped (isFree s part track sector).2 part track sector (fun byte mask => byte ||| mask),
      (flipped (isFree s part track sector).2 part track sector (fun byte mask => byte ||| mask)).view⟩

/-- What `free_sector` makes of the BAM: an allocated sector that it finds gets its bit set, and its
track the counter if that can be had. -/
theorem freeSector_intact (hs : Coherent s.calm) (hr : InBuffer s part track sector)
    (hsafe : FreesSafely s part track sector) :
    Becomes s.calm (freeSector s part track sector).2.calm part
      (if (isFree s part track sector).1 ≠ 0 then s.through part
        else if (freeSector s part track sector).1 = 0 then (s.through part).freeSector track sector
        else (s.through part).setByte ((s.through part).bitAddress track sector)
          ((s.through part).image ((s.through part).bitAddress track sector) |||
            sectorMask (s.through part).isDnp sector)) ∧
      ((isFree s part track sector).1 = 0 → ¬(s.through part).isFree track sector = true) := by
  obtain ⟨hco, hkeep⟩ := moveBamWindow_intact hs hr.lt hr.le hsafe.look
  rw [← isFree_snd s part track sector] at hco hkeep
  by_cases hzero : (isFree s part track sector).1 = 0
  · obtain ⟨hvalue, -, -⟩ := isFree_succeeds hs hr hzero.ge
    have hallocated : ¬(s.through part).isFree track sector = true := by
      intro hfree
      rw [hvalue, if_pos hfree] at hzero
      cases hzero
    refine ⟨?_, fun _ => hallocated⟩
    have hmove : (moveBamWindow s part track .bitfield).1 = 0 := by
      by_contra hfail
      rw [isFree] at hzero
      dsimp only at hzero
      rw [if_pos hfail] at hzero
      cases hzero
    have hformat := isFree_sameFormat s part track sector
    have hmatch := (moveBamWindow_match s part track .bitfield).mpr hmove
    rw [← isFree_snd s part track sector, ← hformat.type] at hmatch
    have hdnp : (isFree s part track sector).2.isDnp part = s.isDnp part := by
      rw [State.isDnp, hformat.imagetype]
      rfl
    have hflip := flipSector_intact hco (hr.sameFormat hformat) hmatch (fun byte mask => byte ||| mask)
      (fun count => if count.toNat < sectorsPerTrack (s.type part) track then some (count + 1) else none)
      (by rw [hdnp]; exact hsafe.count hzero)
    have hthrough : (isFree s part track sector).2.through = s.through := hkeep.through
    rw [hthrough] at hflip
    rw [if_neg (not_not.mpr hzero), freeSector, if_neg (by rw [hzero]; decide), if_pos hzero, Partition.freeSector,
      if_neg hallocated]
    exact Becomes.after hkeep hflip
  · refine ⟨?_, fun h => absurd h hzero⟩
    rw [if_pos hzero, freeSector, if_neg hzero]
    split <;> exact Becomes.of_keeps hkeep hco

/-! ### Runs -/

/-- Along every sequence of steps on the BAM in which no write fails, and no read that fails changes a
buffer that holds a sector, the buffers do what they are for, and `d64_bam_commit` reports that no write
has failed. -/
theorem bamSteps_held (hs : Started s.calm) (steps : List BamStep)
    (hrange : Run.Meets BamStep.run (fun x a => a.InRange x) ⟨s, s.image⟩ steps)
    (hsafe : Run.Meets BamStep.run (fun x a => a.Harmless x) ⟨s, s.image⟩ steps) :
    Run.Always BamStep.run Held ⟨s, s.image⟩ steps ∧
      Run.Meets BamStep.run (fun x a => a = .commit → ((a.run x).1 ≠ 0 ↔ CommitFails x.state))
        ⟨s, s.image⟩ steps := by
  have hview : s.view = s.image := by
    rw [← State.view_calm]
    funext p
    exact congrArg Partition.image (congrFun hs.through p)
  have hstart : Intact ⟨s, s.image⟩ := ⟨hs.coherent, hview⟩
  have hstep : ∀ x a, Intact x → a.InRange x ∧ a.Harmless x → Intact (BamStep.run x a).2 :=
    fun x a hx ha => a.intact_run hx ha.1 ha.2
  refine ⟨(Run.always_of_step hstep hstart (hrange.and hsafe)).mono fun x hx => hx.held,
    Run.Meets.imp_of_step hstep (fun x a hx ha hcommit => ?_) hstart (hrange.and hsafe)⟩
  subst hcommit
  obtain ⟨hco, hcontent⟩ := hx
  obtain ⟨-, -, hfails⟩ := d64BamCommit_intact hco ha.2
  exact iff_of_false (not_not.mpr rfl) hfails

/-- The first access fails: a read into an empty buffer. -/
def readFails : State :=
  { twoImages with io := fun n => if n = 0 then .failed ⟨23, 0, 0⟩ fun _ => 0 else .ok }

/-- The witness of `bamSteps_held`: the read is tried again, a byte is changed and committed. -/
theorem readFails_held :
    Run.Always BamStep.run Held ⟨readFails, readFails.image⟩
      [.window 1 1 .bitfield, .window 1 1 .bitfield, .change 5 0, .commit] := by
  refine (bamSteps_held (s := readFails) ⟨rfl, by decide, ⟨rfl, rfl⟩, by rintro _ ⟨⟩⟩
    [.window 1 1 .bitfield, .window 1 1 .bitfield, .change 5 0, .commit]
    ⟨⟨by decide, by decide⟩, ⟨by decide, by decide⟩, ⟨by decide, by decide⟩, trivial, trivial⟩
    ⟨.inr (.inr ⟨fun hwrites => absurd hwrites (by decide), fun _ _ => .inl rfl⟩),
      .inr (.inr ⟨fun hwrites => absurd hwrites (by decide), fun _ _ => .inl rfl⟩), trivial,
      ⟨fun _ => rfl, by rintro _ ⟨⟩⟩, trivial⟩).1

/-- The second access fails: the write of the changed BAM. -/
def writeFails : State :=
  { twoImages with io := fun n => if n = 1 then .failed ⟨25, 0, 0⟩ fun _ => 0xff else .ok }

/-- There `d64_bam_commit` reports success, and the change is lost. -/
theorem writeFails_lost :
    ¬(Run.Always BamStep.run Held ⟨writeFails, writeFails.image⟩
        [.window 1 1 .bitfield, .change 5 0, .commit] ∧
      Run.Meets BamStep.run (fun x a => a = .commit → ((a.run x).1 ≠ 0 ↔ CommitFails x.state))
        ⟨writeFails, writeFails.image⟩ [.window 1 1 .bitfield, .change 5 0, .commit]) := by
  rintro ⟨-, -, -, hcommit, -⟩
  exact (hcommit rfl).mpr (.inl (by decide)) rfl

end NoDiskEmu.Dxx
