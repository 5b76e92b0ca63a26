import NoDiskEmu.Buffers
import NoDiskEmu.Dxx.Bam
import NoDiskEmu.Library.Run

/-! Mounting and unmounting of Dxx images, and the lifetime of the two BAM buffers. -/

namespace NoDiskEmu.Dxx

open Library

def ERROR_IMAGE_INVALID : ℕ := 79

/-- The buffer table and the variables of `d64ops.c`.  `bam` says that `bam_buffer` is not NULL; it
points to the place `slot` of `disk.bamBuffer` then.  `d64ops` holds for the partitions whose `fop`
is `&d64ops`. -/
structure Drive where
  table : Table
  disk : State
  bam : Bool
  bamRefcount : ℕ
  d64ops : ℕ → Bool

/-- `bam_buffer_alloc`. -/
def bamBufferAlloc (t : Table) : Option BamBuffer × Table :=
  match t.allocSystemBuffer with
  | (none, t) => (none, t)
  | (some i, t) => (some ⟨255, 0, 0, false, (t.buffers i).data, i⟩,
      t.set i { t.buffers i with secondary := BUFFER_SYS_BAM, sticky := true })

namespace State

def setPartition (s : State) (part : ℕ) (p : Partition) : State :=
  { s with partition := Function.update s.partition part p }

def setFormat (s : State) (part : ℕ) (it : ImageType) (p : Param) : State :=
  s.setPartition part { s.partition part with imagetype := it, d64data := p }

/-- The handle of a partition refers to another image file. -/
def openImage (s : State) (part : ℕ) (image : ℕ → UInt8) (writable : Bool) : State :=
  s.setPartition part { s.partition part with image, writable }

/-- `bam_buffer` is marked as empty if it belongs to the partition. -/
def forget (s : State) (part : ℕ) : State :=
  if s.bamBuffer.part = part then { s with bamBuffer := { s.bamBuffer with part := 255 } } else s

/-- The same for `bam_buffer2`. -/
def forget2 (s : State) (part : ℕ) : State :=
  { s with bamBuffer2 := s.bamBuffer2.map fun b => if b.part = part then { b with part := 255 } else b }

end State

namespace Drive

/-- The end of `d64_mount`, once there is a BAM buffer. -/
def finishMount (v : Drive) (part : ℕ) (it : ImageType) (p : Param) : Drive :=
  let s := v.disk.setFormat part it p
  { v with
    disk := if it.errorInfo then { s with errorcache := { s.errorcache with part := 255 } } else s
    bamRefcount := (v.bamRefcount + 1) % 256 }

/-- `d64_mount`, for an image file of `fsize` bytes. -/
def d64Mount (v : Drive) (part fsize : ℕ) (name : List UInt8) : ℕ × Drive :=
  match imageFormat fsize name with
  | none => (1, { v with disk := v.disk.setError ERROR_IMAGE_INVALID })
  | some (it, p) =>
    if v.bam then (0, v.finishMount part it p)
    else
      match bamBufferAlloc v.table with
      | (none, t) =>
        (1, { v with
          table := t
          disk := (v.disk.setFormat part (v.disk.partition part).imagetype p).setError
            ERROR_NO_CHANNEL })
      | (some b, t) =>
        (0, { v with table := t, bam := true, disk := { v.disk with bamBuffer := b } }.finishMount
          part it p)

/-- The mount request of `fat_chdir`, once the image file is open. -/
def mountImage (v : Drive) (part fsize : ℕ) (name : List UInt8) (image : ℕ → UInt8)
    (writable : Bool) : ℕ × Drive :=
  let m := d64Mount { v with disk := v.disk.openImage part image writable } part fsize name
  if m.1 ≠ 0 then m else (0, { m.2 with d64ops := Function.update m.2.d64ops part true })

/-- Both BAM buffers are freed and their pointers set to NULL. -/
def releaseBam (v : Drive) : Drive :=
  let t := if v.bam then v.table.freeBuffer v.disk.bamBuffer.slot else v.table
  { v with
    table := match v.disk.bamBuffer2 with
      | none => t
      | some b => t.freeBuffer b.slot
    disk := { v.disk with bamBuffer2 := none }
    bam := false }

/-- `d64_invalidate`. -/
def d64Invalidate (v : Drive) : Drive := { v.releaseBam with bamRefcount := 0 }

/-- `d64_unmount`. -/
def d64Unmount (v : Drive) (part : ℕ) : Drive :=
  let s := if v.bam then (flushBam v.disk).2.forget part else v.disk
  let v := { v with disk := (flushBam2 s).2.forget2 part }
  let refcount := (v.bamRefcount + 255) % 256
  if refcount ≠ 0 then { v.releaseBam with bamRefcount := refcount }
  else { v with bamRefcount := refcount }

/-- The part of `image_unmount` that concerns Dxx images. -/
def unmountImage (v : Drive) (part : ℕ) : Drive :=
  let v := if v.d64ops part then v.d64Unmount part else v
  { v with d64ops := Function.update v.d64ops part false }

/-- `move_bam_window`: a second BAM buffer comes from the table. -/
def moveBamWindow (v : Drive) (part track : ℕ) (data : BamData) : ℕ × Drive :=
  let a := bamBufferAlloc v.table
  let s := { v.disk with sysFree := fun _ => a.1.map fun b => (b.data, b.slot) }
  let m := Dxx.moveBamWindow s part track data
  (m.1, { v with
    disk := m.2.2
    table := if v.disk.bamBuffer2.isNone && m.2.2.bamBuffer2.isSome then a.2 else v.table })

/-- A BAM buffer lies at this place of the table. -/
def Uses (v : Drive) (i : ℕ) : Prop :=
  v.bam = true ∧ v.disk.bamBuffer.slot = i ∨ v.disk.bamBuffer2.map BamBuffer.slot = some i

/-- The pointers and the table agree on which buffers hold BAM sectors. -/
structure Consistent (v : Drive) : Prop where
  uses : ∀ i, v.Uses i ↔ i < v.table.count ∧ (v.table.buffers i).allocated = true ∧
    (v.table.buffers i).secondary = BUFFER_SYS_BAM
  second : v.bam = false → v.disk.bamBuffer2 = none

end Drive

/-! ### The places of the buffers -/

/-- `s'` has its buffers in the places of `s`. -/
structure SamePlaces (s s' : State) : Prop where
  first : s'.bamBuffer.slot = s.bamBuffer.slot
  second : s'.bamBuffer2.map BamBuffer.slot = s.bamBuffer2.map BamBuffer.slot

theorem SamePlaces.trans {s s' s'' : State} (h : SamePlaces s s') (h' : SamePlaces s' s'') :
    SamePlaces s s'' :=
  ⟨h'.first.trans h.first, h'.second.trans h.second⟩

theorem imageWrite_buffers (s : State) (part offset bytes : ℕ) (data : ℕ → UInt8) :
    (imageWrite s part offset bytes data).2.bamBuffer = s.bamBuffer ∧
      (imageWrite s part offset bytes data).2.bamBuffer2 = s.bamBuffer2 := by
  unfold imageWrite
  split <;> exact ⟨rfl, rfl⟩

theorem imageRead_buffers (s : State) (part offset bytes : ℕ) (buf : ℕ → UInt8) :
    (imageRead s part offset bytes buf).2.2.bamBuffer = s.bamBuffer ∧
      (imageRead s part offset bytes buf).2.2.bamBuffer2 = s.bamBuffer2 := by
  unfold imageRead
  split <;> exact ⟨rfl, rfl⟩

theorem bamBufferFlush_places (s : State) (b : BamBuffer) :
    (bamBufferFlush s b).2.1.slot = b.slot ∧
      (bamBufferFlush s b).2.2.bamBuffer = s.bamBuffer ∧
      (bamBufferFlush s b).2.2.bamBuffer2 = s.bamBuffer2 := by
  unfold bamBufferFlush
  split
  · exact ⟨rfl, imageWrite_buffers ..⟩
  · exact ⟨rfl, rfl, rfl⟩

theorem flushBam_places (s : State) : SamePlaces s (flushBam s).2 := by
  obtain ⟨hslot, -, hsecond⟩ := bamBufferFlush_places s s.bamBuffer
  exact ⟨hslot, congrArg (Option.map BamBuffer.slot) hsecond⟩

theorem flushBam2_places (s : State) : SamePlaces s (flushBam2 s).2 := by
  unfold flushBam2
  cases hb : s.bamBuffer2 with
  | none => exact ⟨rfl, rfl⟩
  | some b =>
    obtain ⟨hslot, hfirst, -⟩ := bamBufferFlush_places s b
    exact ⟨congrArg BamBuffer.slot hfirst, by rw [hb]; exact congrArg some hslot⟩

theorem forget_places (s : State) (part : ℕ) : SamePlaces s (s.forget part) := by
  unfold State.forget
  split <;> exact ⟨rfl, rfl⟩

theorem forget2_places (s : State) (part : ℕ) : SamePlaces s (s.forget2 part) := by
  refine ⟨rfl, ?_⟩
  unfold State.forget2
  cases s.bamBuffer2 with
  | none => rfl
  | some b =>
    refine congrArg some ?_
    show BamBuffer.slot (if b.part = part then { b with part := 255 } else b) = b.slot
    split <;> rfl

theorem loadBam_places (s : State) (part track sector : ℕ) :
    SamePlaces s (loadBam s part track sector).2 := by
  unfold loadBam
  simp only
  have hflush := flushBam_places s
  split_ifs
  · exact hflush
  all_goals
    refine hflush.trans ⟨rfl, ?_⟩
    exact congrArg (Option.map BamBuffer.slot) (imageRead_buffers ..).2

/-- What `move_bam_window` can do with the places of the buffers: keep them, swap them, or move the
first one behind a new one. -/
inductive Places (s s' : State) : Prop
  | same (h : SamePlaces s s')
  | swapped (b : BamBuffer) (h : s.bamBuffer2 = some b) (hfirst : s'.bamBuffer.slot = b.slot)
    (hsecond : s'.bamBuffer2.map BamBuffer.slot = some s.bamBuffer.slot)
  | added (free : (ℕ → UInt8) × ℕ) (h : s.bamBuffer2 = none) (hfree : s.sysFree 0 = some free)
    (hfirst : s'.bamBuffer.slot = free.2)
    (hsecond : s'.bamBuffer2.map BamBuffer.slot = some s.bamBuffer.slot)

theorem Places.trans {s s' s'' : State} (h : Places s s') (h' : SamePlaces s' s'') :
    Places s s'' := by
  cases h with
  | same h => exact .same (h.trans h')
  | swapped b h hfirst hsecond =>
    exact .swapped b h (h'.first.trans hfirst) (h'.second.trans hsecond)
  | added free h hfree hfirst hsecond =>
    exact .added free h hfree (h'.first.trans hfirst) (h'.second.trans hsecond)

theorem chooseBam_places (s : State) : Places s (chooseBam s) := by
  unfold chooseBam
  cases hsecond : s.bamBuffer2 with
  | some b =>
    refine .swapped b hsecond ?_ ?_ <;> simp [bamBufferSwap, hsecond]
  | none =>
    simp only
    by_cases hvalid : s.bamBuffer.part ≠ 255
    · rw [if_pos hvalid]
      cases hfree : s.sysFree 0 with
      | none =>
        refine .same ⟨?_, ?_⟩ <;> simp [bamBufferAlloc2, hfree, State.setError, State.setErrorTs,
          hsecond]
      | some free =>
        refine .added free hsecond hfree ?_ ?_ <;> simp [bamBufferAlloc2, hfree, bamBufferSwap]
    · rw [if_neg hvalid]
      exact .same ⟨rfl, rfl⟩

theorem moveBamWindow_places (s : State) (part track : ℕ) (data : BamData) :
    Places s (moveBamWindow s part track data).2.2 := by
  unfold moveBamWindow
  simp only
  split_ifs
  · exact .same ⟨rfl, rfl⟩
  · exact chooseBam_places s
  · exact (chooseBam_places s).trans (loadBam_places ..)

/-! ### Consistency of the pointers and the table -/

theorem bamBufferAlloc_of_none {t : Table} (h : t.firstFree = none) :
    bamBufferAlloc t = (none, t) := by
  rw [bamBufferAlloc, Table.allocSystemBuffer_of_none h]

/-- The entry that `bam_buffer_alloc` makes. -/
theorem bamBufferAlloc_of_some {t : Table} {i : ℕ} (h : t.firstFree = some i) :
    bamBufferAlloc t = (some ⟨255, 0, 0, false, (t.buffers i).data, i⟩,
      (t.set i ⟨(t.buffers i).data, BUFFER_SEC_SYSTEM, true, false, false⟩).set i
        ⟨(t.buffers i).data, BUFFER_SYS_BAM, true, false, true⟩) := by
  rw [bamBufferAlloc, Table.allocSystemBuffer_of_some h]
  simp only [Table.set_self]

/-- After `bam_buffer_alloc` the table has one more BAM buffer. -/
theorem bamBufferAlloc_table {t : Table} {i : ℕ} (h : t.firstFree = some i) (j : ℕ) :
    (j < (bamBufferAlloc t).2.count ∧ ((bamBufferAlloc t).2.buffers j).allocated = true ∧
      ((bamBufferAlloc t).2.buffers j).secondary = BUFFER_SYS_BAM) ↔
    j = i ∨ j < t.count ∧ (t.buffers j).allocated = true ∧
      (t.buffers j).secondary = BUFFER_SYS_BAM := by
  obtain ⟨hlt, hfree⟩ := Table.firstFree_spec h
  rw [bamBufferAlloc_of_some h]
  by_cases hj : j = i
  · subst hj
    simp [hlt]
  · simp only [Table.set_count, Table.set_of_ne _ _ hj, hj, false_or]

namespace Drive

variable {v v' : Drive}

theorem uses_congr (hbam : v'.bam = v.bam) (h : SamePlaces v.disk v'.disk) (i : ℕ) :
    v'.Uses i ↔ v.Uses i := by
  simp only [Uses, hbam, h.first, h.second]

theorem Consistent.congr (hv : v.Consistent) (hbam : v'.bam = v.bam)
    (h : SamePlaces v.disk v'.disk) (htable : v'.table = v.table) : v'.Consistent := by
  refine ⟨fun i => ?_, fun hnull => ?_⟩
  · rw [uses_congr hbam h, htable]
    exact hv.uses i
  · have hsecond := h.second
    rw [hv.second (hbam ▸ hnull), Option.map_none, Option.map_eq_none_iff] at hsecond
    exact hsecond

theorem Consistent.of_table (hv : v.Consistent) {t : Table}
    (h : ∀ i, (i < t.count ∧ (t.buffers i).allocated = true ∧
        (t.buffers i).secondary = BUFFER_SYS_BAM) ↔
      i < v.table.count ∧ (v.table.buffers i).allocated = true ∧
        (v.table.buffers i).secondary = BUFFER_SYS_BAM) :
    ({ v with table := t } : Drive).Consistent :=
  ⟨fun i => (hv.uses i).trans (h i).symm, hv.second⟩

theorem releaseBam_uses (v : Drive) (i : ℕ) : ¬v.releaseBam.Uses i := by
  rintro (⟨h, -⟩ | h)
  · cases h
  · cases h

@[simp] theorem releaseBam_count (v : Drive) : v.releaseBam.table.count = v.table.count := by
  unfold releaseBam
  cases v.disk.bamBuffer2 <;> cases v.bam <;> simp

/-- What is still allocated after `releaseBam` is not a BAM buffer. -/
theorem Consistent.releaseBam_table (hv : v.Consistent) {i : ℕ} (hi : i < v.table.count)
    (h : (v.releaseBam.table.buffers i).allocated = true) :
    (v.releaseBam.table.buffers i).secondary ≠ BUFFER_SYS_BAM := by
  intro hsys
  obtain ⟨t, ht⟩ : ∃ t, t = if v.bam then v.table.freeBuffer v.disk.bamBuffer.slot else v.table :=
    ⟨_, rfl⟩
  have htable : v.releaseBam.table = match v.disk.bamBuffer2 with
      | none => t
      | some b => t.freeBuffer b.slot := by rw [ht]; rfl
  rw [htable] at h hsys
  have hsecond : (t.buffers i).allocated = true ∧ (t.buffers i).secondary = BUFFER_SYS_BAM ∧
      v.disk.bamBuffer2.map BamBuffer.slot ≠ some i := by
    cases hb : v.disk.bamBuffer2 with
    | none =>
      rw [hb] at h hsys
      exact ⟨h, hsys, by simp⟩
    | some b =>
      rw [hb] at h hsys
      have hsame := Table.freeBuffer_allocated h
      rw [hsame] at hsys
      refine ⟨hsame ▸ h, hsys, ?_⟩
      rintro ⟨rfl⟩
      rw [t.freeBuffer_self (by rw [hsys]; decide)] at h
      cases h
  obtain ⟨halloc, hsec, hnot⟩ := hsecond
  cases hbam : v.bam with
  | false =>
    rw [hbam] at ht
    rw [ht] at halloc hsec
    rcases (hv.uses i).mpr ⟨hi, halloc, hsec⟩ with ⟨hnull, -⟩ | huse
    · simp [hbam] at hnull
    · exact hnot huse
  | true =>
    rw [hbam, if_pos rfl] at ht
    rw [ht] at halloc hsec
    have hsame := Table.freeBuffer_allocated halloc
    rcases (hv.uses i).mpr ⟨hi, hsame ▸ halloc, hsame ▸ hsec⟩ with ⟨-, hslot⟩ | huse
    · have hne : (v.table.buffers i).secondary ≠ 15 := by
        rw [← hsame, hsec]
        decide
      rw [hslot, v.table.freeBuffer_self hne] at halloc
      cases halloc
    · exact hnot huse

theorem Consistent.releaseBam (hv : v.Consistent) : v.releaseBam.Consistent := by
  refine ⟨fun i => ?_, fun _ => rfl⟩
  refine iff_of_false (v.releaseBam_uses i) ?_
  rintro ⟨hi, halloc, hbam⟩
  exact hv.releaseBam_table (v.releaseBam_count ▸ hi) halloc hbam

theorem d64Unmount_places (v : Drive) (part : ℕ) :
    ∃ s, SamePlaces v.disk s ∧ v.d64Unmount part =
      if (v.bamRefcount + 255) % 256 ≠ 0 then
        { ({ v with disk := s } : Drive).releaseBam with
          bamRefcount := (v.bamRefcount + 255) % 256 }
      else { v with disk := s, bamRefcount := (v.bamRefcount + 255) % 256 } := by
  have hfirst : SamePlaces v.disk
      (if v.bam then (flushBam v.disk).2.forget part else v.disk) := by
    split
    · exact (flushBam_places _).trans (forget_places _ _)
    · exact ⟨rfl, rfl⟩
  exact ⟨_, hfirst.trans ((flushBam2_places _).trans (forget2_places _ part)), rfl⟩

theorem Consistent.d64Unmount (hv : v.Consistent) (part : ℕ) : (v.d64Unmount part).Consistent := by
  obtain ⟨s, hplaces, heq⟩ := v.d64Unmount_places part
  have hs : ({ v with disk := s } : Drive).Consistent := hv.congr rfl hplaces rfl
  rw [heq]
  split
  · exact hs.releaseBam.congr rfl ⟨rfl, rfl⟩ rfl
  · exact hs.congr rfl ⟨rfl, rfl⟩ rfl

theorem finishMount_places (v : Drive) (part : ℕ) (it : ImageType) (p : Param) :
    SamePlaces v.disk (v.finishMount part it p).disk := by
  unfold finishMount
  simp only
  split <;> exact ⟨rfl, rfl⟩

/-- The outcomes of `d64_mount`: it fails and leaves the buffers alone, or there is a BAM buffer
afterwards. -/
theorem Consistent.d64Mount (hv : v.Consistent) (part fsize : ℕ) (name : List UInt8) :
    (v.d64Mount part fsize name).2.Consistent ∧
      (v.d64Mount part fsize name).2.d64ops = v.d64ops ∧
      ((v.d64Mount part fsize name).1 = 0 → (v.d64Mount part fsize name).2.bam = true) ∧
      ((v.d64Mount part fsize name).1 ≠ 0 →
        (v.d64Mount part fsize name).2.bam = v.bam ∧
          SamePlaces v.disk (v.d64Mount part fsize name).2.disk ∧
          (v.d64Mount part fsize name).2.table = v.table) := by
  unfold Drive.d64Mount
  cases hformat : imageFormat fsize name with
  | none => exact ⟨hv.congr rfl ⟨rfl, rfl⟩ rfl, rfl, by simp, fun _ => ⟨rfl, ⟨rfl, rfl⟩, rfl⟩⟩
  | some format =>
    obtain ⟨it, p⟩ := format
    simp only
    by_cases hbam : v.bam = true
    · rw [if_pos hbam]
      exact ⟨hv.congr rfl (finishMount_places ..) rfl, rfl, fun _ => hbam, by simp⟩
    · have hnull : v.bam = false := by simpa using hbam
      rw [if_neg hbam]
      cases hfree : v.table.firstFree with
      | none =>
        rw [bamBufferAlloc_of_none hfree]
        exact ⟨hv.congr rfl ⟨rfl, rfl⟩ rfl, rfl, by simp, fun _ => ⟨rfl, ⟨rfl, rfl⟩, rfl⟩⟩
      | some i =>
        have htable := bamBufferAlloc_table hfree
        rw [bamBufferAlloc_of_some hfree] at htable ⊢
        simp only at htable ⊢
        refine ⟨Consistent.congr (v := { v with table := _, bam := true, disk := _ })
          ⟨fun j => ?_, fun h => by cases h⟩ rfl (finishMount_places ..) rfl, rfl, fun _ => rfl,
          by simp⟩
        rw [htable j, ← hv.uses j]
        simp only [Uses, hnull, hv.second hnull, true_and]
        constructor
        · rintro (rfl | h)
          · exact .inl rfl
          · cases h
        · rintro (rfl | h | h)
          · exact .inl rfl
          · cases h.1
          · cases h

theorem d64Mount_refcount (h : v.bamRefcount < 256) (part fsize : ℕ) (name : List UInt8) :
    (v.d64Mount part fsize name).2.bamRefcount < 256 := by
  unfold Drive.d64Mount
  split
  · exact h
  · split
    · exact Nat.mod_lt _ (by decide)
    · split
      · exact h
      · exact Nat.mod_lt _ (by decide)

/-- The outcomes of a mount request. -/
theorem mountImage_cases (hv : v.Consistent) (part fsize : ℕ) (name : List UInt8)
    (image : ℕ → UInt8) (writable : Bool) :
    (v.mountImage part fsize name image writable).2.Consistent ∧
      ((v.mountImage part fsize name image writable).1 = 0 ∧
        (v.mountImage part fsize name image writable).2.bam = true ∧
        (v.mountImage part fsize name image writable).2.d64ops =
          Function.update v.d64ops part true ∨
      (v.mountImage part fsize name image writable).1 ≠ 0 ∧
        (v.mountImage part fsize name image writable).2.bam = v.bam ∧
        (v.mountImage part fsize name image writable).2.d64ops = v.d64ops) := by
  have hopen : ({ v with disk := v.disk.openImage part image writable } : Drive).Consistent :=
    hv.congr rfl ⟨rfl, rfl⟩ rfl
  obtain ⟨hco, hops, hok, hfail⟩ := hopen.d64Mount part fsize name
  unfold mountImage
  simp only
  split
  · next hcode =>
    obtain ⟨hbam, -, -⟩ := hfail hcode
    exact ⟨hco, .inr ⟨hcode, hbam, hops⟩⟩
  · next hcode =>
    have hcode := not_not.mp hcode
    exact ⟨hco.congr rfl ⟨rfl, rfl⟩ rfl, .inl ⟨rfl, hok hcode, by rw [hops]⟩⟩

/-- An unmount keeps the BAM buffers if `bam_refcount` is 1, and releases them otherwise. -/
theorem unmountImage_cases (hv : v.Consistent) (hr : v.bamRefcount < 256) {part : ℕ}
    (h : v.d64ops part = true) :
    (v.unmountImage part).Consistent ∧ (v.unmountImage part).bamRefcount < 256 ∧
      (v.unmountImage part).d64ops = Function.update v.d64ops part false ∧
      (v.unmountImage part).bam = if v.bamRefcount = 1 then v.bam else false := by
  have hco : (v.unmountImage part).Consistent := by
    apply (hv.d64Unmount part).congr
    · rw [unmountImage, if_pos h]
    · rw [unmountImage, if_pos h]
      exact ⟨rfl, rfl⟩
    · rw [unmountImage, if_pos h]
  obtain ⟨s, hplaces, heq⟩ := v.d64Unmount_places part
  refine ⟨hco, ?_⟩
  simp only [unmountImage, if_pos h, heq]
  by_cases h1 : v.bamRefcount = 1
  · rw [if_neg (by omega), if_pos h1]
    exact ⟨Nat.mod_lt _ (by decide), rfl, rfl⟩
  · rw [if_pos (by omega), if_neg h1]
    exact ⟨Nat.mod_lt _ (by decide), rfl, rfl⟩

theorem Consistent.moveBamWindow (hv : v.Consistent) (hbam : v.bam = true) (part track : ℕ)
    (data : BamData) : (v.moveBamWindow part track data).2.Consistent := by
  have hplaces := moveBamWindow_places { v.disk with
    sysFree := fun _ => (bamBufferAlloc v.table).1.map fun b => (b.data, b.slot) } part track data
  unfold Drive.moveBamWindow
  simp only
  set s := (Dxx.moveBamWindow _ part track data).2.2
  cases hplaces with
  | same h =>
    have hkeep : (v.disk.bamBuffer2.isNone && s.bamBuffer2.isSome) = false := by
      have hsecond := congrArg Option.isSome h.second
      simp only [Option.isSome_map] at hsecond
      rw [hsecond]
      cases v.disk.bamBuffer2 <;> rfl
    rw [hkeep, if_neg (by decide)]
    exact hv.congr rfl ⟨h.first, h.second⟩ rfl
  | swapped b h hfirst hsecond =>
    have h : v.disk.bamBuffer2 = some b := h
    rw [h, Option.isNone_some, Bool.false_and, if_neg (by decide)]
    refine ⟨fun i => ?_, fun hnull => by simp [hbam] at hnull⟩
    rw [← hv.uses i]
    simp only [Uses, hbam, hfirst, hsecond, h, Option.map_some, Option.some.injEq, true_and]
    exact or_comm
  | added free h hfree hfirst hsecond =>
    have h : v.disk.bamBuffer2 = none := h
    have hsome : s.bamBuffer2.isSome = true := by
      rw [← Option.isSome_map, hsecond]
      rfl
    rw [h, hsome, Option.isNone_none, Bool.true_and, if_pos rfl]
    cases hff : v.table.firstFree with
    | none => simp [bamBufferAlloc_of_none hff] at hfree
    | some i =>
      have hslot : free.2 = i := by
        simp only [bamBufferAlloc_of_some hff, Option.map_some, Option.some.injEq] at hfree
        rw [← hfree]
      refine ⟨fun j => ?_, fun hnull => by simp [hbam] at hnull⟩
      rw [bamBufferAlloc_table hff, ← hv.uses j]
      simp only [Uses, hbam, hfirst, hsecond, h, hslot, Option.map_none, reduceCtorEq, or_false,
        Option.some.injEq, true_and]
      rw [eq_comm]

end Drive

/-! ### Runs -/

/-- The drive, and the partitions whose image was mounted after the last `d64_invalidate`. -/
structure Life where
  drive : Drive
  fresh : ℕ → Bool

/-- The calls that concern the lifetime of the BAM buffers: mounting and unmounting, the search for
a BAM buffer, and what other channels do with the buffer table. -/
inductive LifeCall
  | mount (part fsize : ℕ) (name : List UInt8) (image : ℕ → UInt8) (writable : Bool)
  | unmount (part : ℕ)
  | invalidate
  | moveBamWindow (part track : ℕ) (data : BamData)
  | openBuffer (secondary : ℕ)
  | closeBuffer (i : ℕ)

namespace LifeCall

def run (l : Life) : LifeCall → ℕ × Life
  | mount part fsize name image writable =>
    let m := l.drive.mountImage part fsize name image writable
    (m.1, ⟨m.2, if m.1 = 0 then Function.update l.fresh part true else l.fresh⟩)
  | unmount part => (0, ⟨l.drive.unmountImage part, Function.update l.fresh part false⟩)
  | invalidate => (0, ⟨l.drive.d64Invalidate, fun _ => false⟩)
  | moveBamWindow part track data =>
    let m := l.drive.moveBamWindow part track data
    (m.1, ⟨m.2, l.fresh⟩)
  | openBuffer secondary =>
    match l.drive.table.allocBuffer with
    | (none, t) => (1, ⟨{ l.drive with table := t }, l.fresh⟩)
    | (some i, t) =>
      (0, ⟨{ l.drive with table := t.set i { t.buffers i with secondary } }, l.fresh⟩)
  | closeBuffer i => (0, ⟨{ l.drive with table := l.drive.table.freeBuffer i }, l.fresh⟩)

/-- Only images that are mounted are unmounted, `move_bam_window` finds a BAM buffer, and other
channels leave the BAM buffers alone. -/
def Allowed (l : Life) : LifeCall → Prop
  | unmount part => l.drive.d64ops part = true
  | moveBamWindow _ _ _ => l.drive.bam = true
  | openBuffer secondary => secondary < BUFFER_SEC_SYSTEM
  | closeBuffer i => ¬l.drive.Uses i
  | mount _ _ _ _ _ | invalidate => True

/-- What an unmount must find: if `bam_refcount` is 1, another mounted image or no BAM buffer;
otherwise no other image that still needs the BAM buffer. -/
def UnmountOk (l : Life) : LifeCall → Prop
  | unmount part =>
    if l.drive.bamRefcount = 1 then (∃ p, p ≠ part ∧ l.drive.d64ops p = true) ∨ l.drive.bam = false
    else ∀ p, p ≠ part → l.fresh p = false
  | _ => True

end LifeCall

namespace Life

/-- While an image is mounted `bam_buffer` points to an allocated buffer, and without images both
BAM buffers have been released. -/
structure Safe (l : Life) : Prop where
  alive : ∀ p, l.fresh p = true →
    l.drive.bam = true ∧ (l.drive.table.buffers l.drive.disk.bamBuffer.slot).allocated = true
  released : (∀ p, l.drive.d64ops p = false) →
    l.drive.bam = false ∧ l.drive.disk.bamBuffer2 = none ∧ ∀ i < l.drive.table.count,
      (l.drive.table.buffers i).allocated = true →
        (l.drive.table.buffers i).secondary ≠ BUFFER_SYS_BAM

structure Consistent (l : Life) : Prop where
  drive : l.drive.Consistent
  fresh : ∀ p, l.fresh p = true → l.drive.d64ops p = true
  refcount : l.drive.bamRefcount < 256

/-- For consistent pointers, only whether there is a BAM buffer matters. -/
theorem Consistent.safe_iff {l : Life} (hl : l.Consistent) :
    l.Safe ↔ (∀ p, l.fresh p = true → l.drive.bam = true) ∧
      ((∀ p, l.drive.d64ops p = false) → l.drive.bam = false) := by
  constructor
  · intro h
    exact ⟨fun p hp => (h.alive p hp).1, fun hp => (h.released hp).1⟩
  · rintro ⟨halive, hreleased⟩
    refine ⟨fun p hp => ⟨halive p hp, ?_⟩, fun hp => ?_⟩
    · exact ((hl.drive.uses _).mp (.inl ⟨halive p hp, rfl⟩)).2.1
    · have hnull := hreleased hp
      have hsecond := hl.drive.second hnull
      refine ⟨hnull, hsecond, fun i hi halloc hsys => ?_⟩
      rcases (hl.drive.uses i).mpr ⟨hi, halloc, hsys⟩ with ⟨hbam, -⟩ | hbam
      · simp [hnull] at hbam
      · simp [hsecond] at hbam

theorem openBuffer_consistent {l : Life} (hl : l.Consistent) {secondary : ℕ}
    (h : secondary < BUFFER_SEC_SYSTEM) :
    ((LifeCall.openBuffer secondary).run l).2.drive.Consistent := by
  have hsec : secondary ≠ BUFFER_SYS_BAM := by
    rw [BUFFER_SEC_SYSTEM] at h
    rw [BUFFER_SYS_BAM]
    omega
  unfold LifeCall.run Table.allocBuffer
  cases hfree : l.drive.table.firstFree with
  | none =>
    rw [Table.allocSystemBuffer_of_none hfree]
    exact hl.drive
  | some i =>
    rw [Table.allocSystemBuffer_of_some hfree]
    refine hl.drive.of_table fun j => ?_
    by_cases hj : j = i
    · subst hj
      have halloc := (Table.firstFree_spec hfree).2
      simp [hsec, halloc]
    · simp only [Table.set_count, Table.set_of_ne _ _ hj]

theorem closeBuffer_consistent {l : Life} (hl : l.Consistent) {i : ℕ} (h : ¬l.drive.Uses i) :
    ((LifeCall.closeBuffer i).run l).2.drive.Consistent := by
  refine hl.drive.of_table fun j => ?_
  rw [Table.freeBuffer_count]
  by_cases hj : j = i
  · subst hj
    rw [hl.drive.uses] at h
    refine iff_of_false (fun hbam => h ?_) h
    obtain ⟨hlt, halloc, hsys⟩ := hbam
    have hsame := Table.freeBuffer_allocated halloc
    rw [hsame] at halloc hsys
    exact ⟨hlt, halloc, hsys⟩
  · rw [Table.freeBuffer_of_ne _ hj]

theorem openBuffer_frame (l : Life) (secondary : ℕ) :
    ((LifeCall.openBuffer secondary).run l).2.fresh = l.fresh ∧
      ((LifeCall.openBuffer secondary).run l).2.drive.d64ops = l.drive.d64ops ∧
      ((LifeCall.openBuffer secondary).run l).2.drive.bam = l.drive.bam ∧
      ((LifeCall.openBuffer secondary).run l).2.drive.bamRefcount = l.drive.bamRefcount := by
  unfold LifeCall.run
  simp only
  split <;> exact ⟨rfl, rfl, rfl, rfl⟩

/-- The calls keep the pointers and the table consistent. -/
theorem Consistent.run {l : Life} (hl : l.Consistent) {c : LifeCall} (hc : c.Allowed l) :
    (c.run l).2.Consistent := by
  cases c with
  | mount part fsize name image writable =>
    obtain ⟨hco, hcases⟩ := Drive.mountImage_cases hl.drive part fsize name image writable
    refine ⟨hco, ?_, ?_⟩
    · unfold LifeCall.run
      simp only
      rcases hcases with ⟨hcode, -, hops⟩ | ⟨hcode, -, hops⟩
      · rw [if_pos hcode, hops]
        intro p hp
        by_cases hpart : p = part
        · rw [hpart, Function.update_self]
        · rw [Function.update_of_ne hpart] at hp ⊢
          exact hl.fresh p hp
      · rw [if_neg hcode, hops]
        exact hl.fresh
    · have hcount := Drive.d64Mount_refcount
        (v := { l.drive with disk := l.drive.disk.openImage part image writable }) hl.refcount
        part fsize name
      unfold LifeCall.run Drive.mountImage
      simp only
      split <;> exact hcount
  | unmount part =>
    obtain ⟨hco, hcount, hops, -⟩ := Drive.unmountImage_cases hl.drive hl.refcount hc
    refine ⟨hco, fun p hp => ?_, hcount⟩
    have hp : Function.update l.fresh part false p = true := hp
    show (l.drive.unmountImage part).d64ops p = true
    rw [hops]
    by_cases hpart : p = part
    · rw [hpart, Function.update_self] at hp
      cases hp
    · rw [Function.update_of_ne hpart] at hp ⊢
      exact hl.fresh p hp
  | invalidate =>
    refine ⟨hl.drive.releaseBam.congr rfl ⟨rfl, rfl⟩ rfl, fun p hp => ?_, ?_⟩
    · cases hp
    · exact Nat.zero_lt_succ _
  | moveBamWindow part track data =>
    exact ⟨hl.drive.moveBamWindow hc part track data, hl.fresh, hl.refcount⟩
  | openBuffer secondary =>
    obtain ⟨hfresh, hops, -, hcount⟩ := openBuffer_frame l secondary
    refine ⟨openBuffer_consistent hl hc, ?_, ?_⟩
    · rw [hfresh, hops]
      exact hl.fresh
    · rw [hcount]
      exact hl.refcount
  | closeBuffer i => exact ⟨closeBuffer_consistent hl hc, hl.fresh, hl.refcount⟩

/-- A call other than an unmount keeps the buffers safe; an unmount does so exactly if it finds what
`UnmountOk` says. -/
theorem Consistent.safe_run_iff {l : Life} (hl : l.Consistent) (hsafe : l.Safe) {c : LifeCall}
    (hc : c.Allowed l) : (c.run l).2.Safe ↔ c.UnmountOk l := by
  rw [(hl.run hc).safe_iff]
  rw [hl.safe_iff] at hsafe
  obtain ⟨halive, hreleased⟩ := hsafe
  cases c with
  | mount part fsize name image writable =>
    obtain ⟨-, hcases⟩ := Drive.mountImage_cases hl.drive part fsize name image writable
    refine iff_of_true ?_ trivial
    unfold LifeCall.run
    simp only
    rcases hcases with ⟨hcode, hbam, hops⟩ | ⟨hcode, hbam, hops⟩
    · rw [hbam, hops]
      refine ⟨fun _ _ => rfl, fun hnone => ?_⟩
      have hpart := hnone part
      rw [Function.update_self] at hpart
      cases hpart
    · rw [if_neg hcode, hbam, hops]
      exact ⟨halive, hreleased⟩
  | unmount part =>
    obtain ⟨-, -, hops, hbam⟩ := Drive.unmountImage_cases hl.drive hl.refcount hc
    show (∀ p, Function.update l.fresh part false p = true →
      (l.drive.unmountImage part).bam = true) ∧ ((∀ p, (l.drive.unmountImage part).d64ops p = false) →
        (l.drive.unmountImage part).bam = false) ↔ _
    rw [hops, hbam, LifeCall.UnmountOk]
    by_cases h1 : l.drive.bamRefcount = 1
    · rw [if_pos h1, if_pos h1]
      constructor
      · rintro ⟨-, hnull⟩
        by_contra hnot
        obtain ⟨hother, hbam⟩ := not_or.mp hnot
        refine hbam (hnull fun p => ?_)
        by_cases hpart : p = part
        · rw [hpart, Function.update_self]
        · rw [Function.update_of_ne hpart]
          by_contra hops
          exact hother ⟨p, hpart, by simpa using hops⟩
      · intro hok
        refine ⟨fun p hp => ?_, fun hnone => ?_⟩
        · by_cases hpart : p = part
          · rw [hpart, Function.update_self] at hp
            cases hp
          · rw [Function.update_of_ne hpart] at hp
            exact halive p hp
        · rcases hok with ⟨p, hpart, hops⟩ | hnull
          · have hp := hnone p
            rw [Function.update_of_ne hpart, hops] at hp
            cases hp
          · exact hnull
    · rw [if_neg h1, if_neg h1]
      constructor
      · rintro ⟨hnone, -⟩ p hpart
        by_contra hp
        have hfalse := hnone p (by rw [Function.update_of_ne hpart]; simpa using hp)
        cases hfalse
      · intro hok
        refine ⟨fun p hp => ?_, fun _ => rfl⟩
        by_cases hpart : p = part
        · rw [hpart, Function.update_self] at hp
          cases hp
        · rw [Function.update_of_ne hpart, hok p hpart] at hp
          cases hp
  | invalidate => exact iff_of_true ⟨fun _ hp => (by cases hp), fun _ => rfl⟩ trivial
  | moveBamWindow part track data => exact iff_of_true ⟨halive, hreleased⟩ trivial
  | openBuffer secondary =>
    obtain ⟨hfresh, hops, hbam, -⟩ := openBuffer_frame l secondary
    rw [hfresh, hops, hbam]
    exact iff_of_true ⟨halive, hreleased⟩ trivial
  | closeBuffer i => exact iff_of_true ⟨halive, hreleased⟩ trivial

end Life

/-- The state after a reset: nothing is mounted, and no data buffer is allocated. -/
structure Life.Initial (l : Life) : Prop where
  d64ops : ∀ p, l.drive.d64ops p = false
  fresh : ∀ p, l.fresh p = false
  bam : l.drive.bam = false
  second : l.drive.disk.bamBuffer2 = none
  refcount : l.drive.bamRefcount = 0
  table : ∀ i < l.drive.table.count, (l.drive.table.buffers i).allocated = false

theorem Life.Initial.consistent {l : Life} (h : l.Initial) : l.Consistent := by
  refine ⟨⟨fun i => iff_of_false ?_ ?_, fun _ => h.second⟩, fun p hp => ?_, ?_⟩
  · rintro (⟨hbam, -⟩ | hbam)
    · simp [h.bam] at hbam
    · simp [h.second] at hbam
  · rintro ⟨hi, halloc, -⟩
    simp [h.table i hi] at halloc
  · simp [h.fresh p] at hp
  · rw [h.refcount]
    decide

theorem Life.Initial.safe {l : Life} (h : l.Initial) : l.Safe :=
  h.consistent.safe_iff.mpr ⟨fun p hp => by simp [h.fresh p] at hp, fun _ => h.bam⟩

theorem always_safe_iff {l : Life} (hl : l.Consistent) (hsafe : l.Safe) {calls : List LifeCall}
    (hcalls : Run.Meets LifeCall.run LifeCall.Allowed l calls) :
    Run.Always LifeCall.run Life.Safe l calls ↔
      Run.Meets LifeCall.run LifeCall.UnmountOk l calls := by
  induction calls generalizing l with
  | nil => exact iff_of_true (Run.always_nil.mpr hsafe) trivial
  | cons c calls ih =>
    have hstep := hl.safe_run_iff hsafe hcalls.1
    rw [Run.always_cons]
    constructor
    · rintro ⟨-, h⟩
      have hnext : (c.run l).2.Safe := h 0
      exact ⟨hstep.mp hnext, (ih (hl.run hcalls.1) hnext hcalls.2).mp h⟩
    · rintro ⟨hok, h⟩
      exact ⟨hsafe, (ih (hl.run hcalls.1) (hstep.mpr hok) hcalls.2).mpr h⟩

/-- Along every run from the initial state, the BAM buffers are safe in every state reached exactly
if every unmount finds what it must. -/
theorem bamLifetime_iff {l : Life} (hl : l.Initial) (calls : List LifeCall)
    (hcalls : Run.Meets LifeCall.run LifeCall.Allowed l calls) :
    Run.Always LifeCall.run Life.Safe l calls ↔
      Run.Meets LifeCall.run LifeCall.UnmountOk l calls :=
  always_safe_iff hl.consistent hl.safe hcalls

/-- A drive with six buffers after a reset. -/
def resetLife : Life where
  drive :=
    { table := ⟨6, fun i => ⟨fun _ => 0, if i = 6 then 15 else 0, i = 6, false, false⟩, 0⟩
      disk :=
        { partition := fun _ => ⟨⟨.none, false⟩, d41param, fun _ => 0, false⟩
          maxPart := 2
          bamBuffer := ⟨255, 0, 0, false, fun _ => 0, 0⟩
          bamBuffer2 := none
          errorcache := ⟨255, 0, fun _ => 0⟩
          scratch := fun _ => 0
          error := ⟨0, 0, 0⟩
          io := fun _ => .ok
          sysFree := fun _ => none }
      bam := false
      bamRefcount := 0
      d64ops := fun _ => false }
  fresh _ := false

theorem resetLife_initial : resetLife.Initial :=
  ⟨fun _ => rfl, fun _ => rfl, rfl, rfl, rfl, by decide⟩

/-- An image is mounted, the buffers are invalidated, and another image is mounted and used; then both
are left. -/
def leaveBoth : List LifeCall :=
  [.mount 0 174848 [] (fun _ => 0) true, .invalidate, .mount 1 174848 [] (fun _ => 0) true,
    .moveBamWindow 1 1 .bitfield, .unmount 1, .unmount 0]

/-- The witness of `bamLifetime_iff`: the first unmount finds an image that is still mounted, the second
one no image that needs the BAM buffer. -/
theorem mounted_safe : Run.Always LifeCall.run Life.Safe resetLife leaveBoth := by
  have hcalls : Run.Meets LifeCall.run LifeCall.Allowed resetLife leaveBoth :=
    ⟨trivial, trivial, trivial, rfl, rfl, rfl, trivial⟩
  refine (bamLifetime_iff resetLife_initial _ hcalls).mpr ⟨trivial, trivial, trivial, trivial, ?_, ?_, trivial⟩
  · rw [LifeCall.UnmountOk]
    split
    · exact .inl ⟨0, by decide, rfl⟩
    · next hcount => exact absurd rfl hcount
  · rw [LifeCall.UnmountOk, if_neg (by decide)]
    intro p _
    show Function.update (Function.update (fun _ => false) 1 true) 1 false p = false
    rw [Function.update_idem, Function.update_eq_self]

/-- With images on two partitions, leaving one of them takes the BAM buffer away from the other; and
leaving the only image keeps its BAM buffer allocated. -/
theorem unmount_unsafe :
    Run.Meets LifeCall.run LifeCall.Allowed resetLife [.mount 0 174848 [] (fun _ => 0) true,
      .mount 1 174848 [] (fun _ => 0) true, .unmount 0] ∧
    ¬Run.Always LifeCall.run Life.Safe resetLife [.mount 0 174848 [] (fun _ => 0) true,
      .mount 1 174848 [] (fun _ => 0) true, .unmount 0] ∧
    ¬Run.Always LifeCall.run Life.Safe resetLife [.mount 0 174848 [] (fun _ => 0) true,
      .unmount 0] := by
  refine ⟨⟨trivial, trivial, rfl, trivial⟩, fun h => ?_, fun h => ?_⟩
  · have halive := (h.last.alive 1 (by decide)).1
    revert halive
    decide
  · have hreleased := (h.last.released fun p => ?_).1
    · revert hreleased
      decide
    · show Function.update (Function.update (fun _ => false) 0 true) 0 false p = false
      rw [Function.update_idem, Function.update_eq_self]

end NoDiskEmu.Dxx
