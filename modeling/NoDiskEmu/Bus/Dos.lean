import NoDiskEmu.Buffers.Cleanup
import NoDiskEmu.Dxx.Mount
import NoDiskEmu.Dxx.Sector

/-! The calls on the buffer table and on the BAM that commands, file names and data cause, whatever
bus they come from.  The file-system code behind the buses appears here as the calls it makes. -/

namespace NoDiskEmu.Bus

open Dxx

/-- What a part of the file-system code does with the buffers and the BAM. -/
inductive DosCall
  /-- A call on the BAM. -/
  | bam (call : BamCall)
  /-- A format function replaces a byte of the BAM sector in `bam_buffer`. -/
  | patchBam (part track : ℕ) (data : BamData) (pos : ℕ) (value : UInt8)
  | bamCommit
  | mount (part fsize : ℕ) (name : List UInt8) (image : ℕ → UInt8) (writable : Bool)
  | unmount (part : ℕ)
  /-- `fatops_init`: the partitions are counted anew, their operations are reset, and
  `d64_invalidate` is called. -/
  | fatopsInit (maxPart : ℕ) (d64ops : ℕ → Bool)
  /-- A buffer is allocated for a channel and made sticky. -/
  | openBuffer (secondary : ℕ)
  /-- A buffer is allocated and freed again. -/
  | borrowBuffer
  /-- A buffer is allocated, and the function that did it returns on an error without freeing it. -/
  | leaveBuffer
  | freeBuffer (i : ℕ)

/-- The table after `alloc_buffer`, if it succeeds, with the new buffer changed by `f`. -/
def withBuffer (t : Table) (f : Table → ℕ → Table) : Table :=
  match t.allocBuffer with
  | (none, t) => t
  | (some i, t) => f t i

/-- `d64_bam_commit` for a drive that may have no BAM buffer. -/
def bamCommit (v : Drive) : Drive :=
  let s := if v.bam then (flushBam v.disk).2 else v.disk
  { v with disk := (flushBam2 s).2 }

/-- A call that uses the BAM buffer, with a second one from the table.  Without a BAM buffer the
program has no defined behaviour; here nothing happens. -/
def onBam (v : Drive) (f : State → State) : Drive :=
  if v.bam then
    let a := bamBufferAlloc v.table
    let s := f { v.disk with sysFree := fun _ => a.1.map fun b => (b.data, b.slot) }
    { v with
      disk := s
      table := if v.disk.bamBuffer2.isNone && s.bamBuffer2.isSome then a.2 else v.table }
  else v

/-- The partition that a call on the BAM is about. -/
def bamCallPart : BamCall → ℕ
  | .isFree part _ _ | .sectorsFree part _ | .allocateSector part _ _ | .freeSector part _ _ => part

def bamCallTrack : BamCall → ℕ
  | .isFree _ track _ | .sectorsFree _ track | .allocateSector _ track _ | .freeSector _ track _ => track

/-- The call can change the BAM. -/
def bamCallWrites : BamCall → Bool
  | .isFree _ _ _ | .sectorsFree _ _ => false
  | .allocateSector _ _ _ | .freeSector _ _ _ => true

/-- The functions of `d64ops.c` are called for partitions that exist and whose `fop` is `&d64ops`. A
track number is a byte. -/
abbrev OnImage (v : Drive) (part track : ℕ) : Prop :=
  part < v.disk.maxPart ∧ v.d64ops part = true ∧ track < 256

namespace DosCall

/-- Images are mounted by `fat_chdir`, so on partitions with no image, and channels are other than the
error channel. `max_part` is a byte. -/
def run (v : Drive) : DosCall → Drive
  | bam call =>
    if OnImage v (bamCallPart call) (bamCallTrack call) then onBam v fun s => (call.run s).2 else v
  | patchBam part track data pos value =>
    if OnImage v part track then
      onBam v fun s =>
        let m := moveBamWindow s part track data
        if m.1 ≠ 0 then m.2.2 else setBamByte m.2.2 pos value
    else v
  | bamCommit => Bus.bamCommit v
  | mount part fsize name image writable =>
    if v.d64ops part then v else (v.mountImage part fsize name image writable).2
  | unmount part => v.unmountImage part
  | fatopsInit maxPart d64ops =>
    ({ v with disk := { v.disk with maxPart := maxPart % 256 }, d64ops } : Drive).d64Invalidate
  | openBuffer secondary =>
    if secondary = 15 then v
    else { v with
      table := withBuffer v.table fun t i =>
        t.set i { t.buffers i with secondary, sticky := true } }
  | borrowBuffer => { v with table := withBuffer v.table Table.freeBuffer }
  | leaveBuffer => { v with table := withBuffer v.table fun t _ => t }
  | freeBuffer i => { v with table := v.table.freeBuffer i }

def runAll (v : Drive) (calls : List DosCall) : Drive := calls.foldl run v

end DosCall

/-- What the cleanup callback of each buffer does: its result and the calls it makes. -/
abbrev Cleanup := ℕ → Bool × List DosCall

/-- The loop of `free_multiple_buffers` over the buffers `is`.  Once a cleanup has failed the
remaining ones are not called. -/
def freeMultiple (flags : FmbFlags) (cleanup : Cleanup) : List ℕ → Bool → Drive → Bool × Drive
  | [], res, v => (res, v)
  | i :: is, res, v =>
    let b := v.table.buffers i
    if b.allocated && (flags.freeSystem || b.secondary < BUFFER_SEC_SYSTEM) &&
        (flags.freeSticky || !b.sticky) then
      let c := if flags.clean && !res then ((cleanup i).1, DosCall.runAll v (cleanup i).2)
        else (res, v)
      freeMultiple flags cleanup is c.1 { c.2 with table := c.2.table.freeBuffer i }
    else freeMultiple flags cleanup is res v

/-- `free_multiple_buffers`. -/
def freeMultipleBuffers (flags : FmbFlags) (cleanup : Cleanup) (v : Drive) : Bool × Drive :=
  freeMultiple flags cleanup (List.range v.table.count) false v

instance : HasTable Drive := ⟨Drive.table, fun v table => { v with table }⟩

/-- The loop is the sweep of the buffer table, with callbacks that act on the drive. -/
theorem freeMultiple_eq_sweep (flags : FmbFlags) (cleanup : Cleanup) (is : List ℕ) (res : Bool)
    (v : Drive) :
    let r := sweep flags (fun i v => ((cleanup i).1, DosCall.runAll v (cleanup i).2)) is res v
    freeMultiple flags cleanup is res v = (r.res, r.state) := by
  induction is generalizing res v with
  | nil => rfl
  | cons i is ih =>
    rw [freeMultiple, sweep]
    show (if v.table.selected flags i then _ else _) = _
    by_cases hsel : v.table.selected flags i
    · rw [if_pos hsel, if_pos (show (HasTable.table v).selected flags i = true from hsel)]
      by_cases hclean : (flags.clean && !res) = true
      · rw [if_pos hclean, if_pos hclean]
        exact ih _ _
      · rw [if_neg hclean, if_neg hclean]
        exact ih _ _
    · rw [if_neg hsel, if_neg (show ¬(HasTable.table v).selected flags i = true from hsel)]
      exact ih _ _

/-- `cleanup_and_free_buffer` for the buffer of a channel, if it has one. -/
def closeChannel (cleanup : Cleanup) (secondary : ℕ) (v : Drive) : Bool × Drive :=
  match v.table.findBuffer secondary with
  | none => (false, v)
  | some i =>
    let v := DosCall.runAll v (cleanup i).2
    ((cleanup i).1, { v with table := v.table.freeBuffer i })

/-! ### What every call keeps -/

/-- `P` stays true whatever call is made. -/
def Kept (P : Drive → Prop) : Prop := ∀ ⦃v : Drive⦄, P v → ∀ c, P (DosCall.run v c)

section

variable {P : Drive → Prop} {v : Drive}

theorem Kept.runAll (hP : Kept P) (hv : P v) (calls : List DosCall) : P (DosCall.runAll v calls) := by
  induction calls generalizing v with
  | nil => exact hv
  | cons c calls ih => exact ih (hP hv c)

theorem Kept.freeBuffer (hP : Kept P) (hv : P v) (i : ℕ) : P { v with table := v.table.freeBuffer i } :=
  hP hv (.freeBuffer i)

theorem Kept.freeMultiple (hP : Kept P) (flags : FmbFlags) (cleanup : Cleanup) (is : List ℕ) (res : Bool)
    (hv : P v) : P (freeMultiple flags cleanup is res v).2 := by
  have hmeets : SweepMeets flags (fun i v => ((cleanup i).1, DosCall.runAll v (cleanup i).2)) (fun _ _ => True)
      is res v := sweepMeets_of_forall (fun _ _ => trivial) is res v
  have hfree : ∀ i ∈ is, ∀ v, P v → P (freeIn v i) := fun i _ v hv => hP.freeBuffer hv i
  rw [freeMultiple_eq_sweep]
  exact sweep_rule (fun i _ hv _ => hP.runAll hv (cleanup i).2) hfree hv hmeets

theorem Kept.closeChannel (hP : Kept P) (cleanup : Cleanup) (secondary : ℕ) (hv : P v) :
    P (closeChannel cleanup secondary v).2 := by
  unfold Bus.closeChannel
  split
  · exact hv
  · exact hP.freeBuffer (hP.runAll hv _) _

end

/-! ### Buffers that can be flushed -/

/-- The BAM buffers that must be flushed belong to the partitions below `n`, so that
`bam_buffer_flush` writes them if all of these exist.  For `n = 0` none must be flushed. -/
structure DirtyBelow (n : ℕ) (s : State) : Prop where
  le : n ≤ s.maxPart
  first : s.bamBuffer.mustflush = true → s.bamBuffer.part < n
  second : ∀ b, s.bamBuffer2 = some b → b.mustflush = true → b.part < n

variable {n : ℕ} {s : State} {v : Drive}

/-- `s'` has no more to flush than `s`, and as many partitions. -/
structure NoDirtier (n : ℕ) (s s' : State) : Prop where
  dirty : DirtyBelow n s'
  maxPart : s'.maxPart = s.maxPart

theorem NoDirtier.refl (h : DirtyBelow n s) : NoDirtier n s s := ⟨h, rfl⟩

theorem NoDirtier.trans {s' s'' : State} (h : NoDirtier n s s') (h' : NoDirtier n s' s'') :
    NoDirtier n s s'' :=
  ⟨h'.dirty, h'.maxPart.trans h.maxPart⟩

section

variable {part : ℕ}

end

/-- The allocated entries of a table satisfy `Q`. -/
def Entries (Q : Buffer → Prop) (t : Table) : Prop :=
  ∀ i < t.count, (t.buffers i).allocated = true → Q (t.buffers i)

section

variable {Q : Buffer → Prop} {t : Table}

theorem Entries.set (h : Entries Q t) {i : ℕ} {b : Buffer} (hb : b.allocated = true → Q b) :
    Entries Q (t.set i b) := by
  intro j hj halloc
  by_cases heq : j = i
  · subst heq
    rw [Table.set_self] at halloc ⊢
    exact hb halloc
  · rw [Table.set_of_ne _ _ heq] at halloc ⊢
    exact h j hj halloc

theorem Entries.freeBuffer (h : Entries Q t) (i : ℕ) : Entries Q (t.freeBuffer i) := by
  intro j hj halloc
  have hsame := Table.freeBuffer_allocated halloc
  rw [hsame] at halloc ⊢
  exact h j (t.freeBuffer_count i ▸ hj) halloc

theorem Entries.bamBufferAlloc (h : Entries Q t)
    (hQ : ∀ data, Q ⟨data, BUFFER_SYS_BAM, true, false, true⟩) : Entries Q (bamBufferAlloc t).2 := by
  cases hfree : t.firstFree with
  | none =>
    rw [bamBufferAlloc_of_none hfree]
    exact h
  | some i =>
    rw [bamBufferAlloc_of_some hfree]
    intro j hj halloc
    by_cases heq : j = i
    · subst heq
      rw [Table.set_self]
      exact hQ _
    · rw [Table.set_of_ne _ _ heq, Table.set_of_ne _ _ heq] at halloc ⊢
      exact h j hj halloc

/-- A new buffer matters only as the function that asked for it leaves it. -/
theorem Entries.withBuffer (h : Entries Q t) {f : Table → ℕ → Table}
    (hf : ∀ (t' : Table) i, t'.count = t.count →
      (∀ j < t.count, j ≠ i → (t'.buffers j).allocated = true → Q (t'.buffers j)) →
      (t'.buffers i).secondary = 0 → Entries Q (f t' i)) : Entries Q (withBuffer t f) := by
  unfold Bus.withBuffer Table.allocBuffer
  cases hfree : t.firstFree with
  | none =>
    rw [Table.allocSystemBuffer_of_none hfree]
    exact h
  | some i =>
    rw [Table.allocSystemBuffer_of_some hfree]
    refine hf _ i rfl (fun j hj hne halloc => ?_) ?_
    · simp only [Table.set_of_ne _ _ hne] at halloc ⊢
      exact h j hj halloc
    · simp

end

/-- The buffer is not assigned to the error channel; `free_buffer` would not free it otherwise. -/
def NotError (b : Buffer) : Prop := b.secondary ≠ 15

def Sticky (b : Buffer) : Prop := b.sticky = true

/-- The BAM buffers that must be flushed belong to partitions below `n`. -/
structure Orderly (n : ℕ) (v : Drive) : Prop where
  le : n ≤ v.disk.maxPart
  dirty : v.bam = true → DirtyBelow n v.disk
  second : v.bam = false → v.disk.bamBuffer2 = none

/-- The state of the BAM buffers is the same. -/
theorem Orderly.congr {v' : Drive} (hv : Orderly n v) (hbam : v'.bam = v.bam)
    (h1 : v'.disk.bamBuffer = v.disk.bamBuffer) (h2 : v'.disk.bamBuffer2 = v.disk.bamBuffer2)
    (hmax : v'.disk.maxPart = v.disk.maxPart) : Orderly n v' :=
  ⟨hmax ▸ hv.le, fun h => ⟨hmax ▸ hv.le, h1 ▸ (hv.dirty (hbam ▸ h)).first,
    h2 ▸ (hv.dirty (hbam ▸ h)).second⟩, fun h => h2 ▸ hv.second (hbam ▸ h)⟩

namespace DosCall

/-- The call can leave a change of the BAM in a buffer. -/
def changesBam : DosCall → Bool
  | bam call => bamCallWrites call
  | patchBam _ _ _ _ _ => true
  | _ => false

/-- What every call keeps: a commit writes what must be flushed, and every buffer can be freed. -/
structure Ready (v : Drive) : Prop where
  orderly : Orderly v.disk.maxPart v
  notError : Entries NotError v.table

end DosCall

open DosCall

/-- Nothing is left to do: no BAM buffer must be flushed, and every allocated buffer is sticky. -/
structure Settled (v : Drive) : Prop where
  first : v.bam = true → v.disk.bamBuffer.mustflush = false
  second : ∀ b, v.disk.bamBuffer2 = some b → b.mustflush = false
  sticky : Entries Sticky v.table

/-- The end of a transaction on the serial bus. -/
def garbageCollect (v : Drive) : Drive :=
  bamCommit (freeMultipleBuffers FMB_UNSTICKY (fun _ => (false, [])) v).2

theorem Kept.garbageCollect {P : Drive → Prop} (hP : Kept P) (hv : P v) : P (garbageCollect v) :=
  hP (hP.freeMultiple FMB_UNSTICKY _ _ false hv) .bamCommit

end NoDiskEmu.Bus
