import NoDiskEmu.Buffers.Menu

/-! What a `CD` command does with the buffers: mounting and unmounting an image close the buffers of the
user, and take and give back those of the BAM. The menu gives such commands while it holds buffers. -/

namespace NoDiskEmu

open Library Library.Run

namespace Channels

/-- The places of `bam_buffer` and `bam_buffer2`, those that are not NULL. -/
def bamBuffers (b : Channels) : List ℕ :=
  (List.range b.count).filter fun i =>
    (b.table.buffers i).allocated && (b.table.buffers i).secondary == BUFFER_SYS_BAM

/-- `bam_buffer_alloc`, and whether it fails. -/
def bamBufferAlloc (b : Channels) : Bool × Channels :=
  match b.allocSystemBuffer with
  | (none, b) => (true, b)
  | (some i, b) => (false, { b with
      table := b.table.set i { b.table.buffers i with secondary := BUFFER_SYS_BAM, sticky := true } })

/-- The buffers after `free_multiple_buffers(FMB_USER_CLEAN)`. -/
def closeUser (b : Channels) (cleanup : ℕ → Bool × List BufferCall) : Channels :=
  (freeMultipleBuffers FMB_USER_CLEAN (DriveCall.callback cleanup) b).state

end Channels

/-- What `chdir` does with a name: it changes the directory, it mounts an image that is `accepted` or not,
or it unmounts one, whereby `bam_refcount` decides whether the BAM buffers are given back. `cleanup` are
the callbacks of the buffers that are closed. -/
inductive Chdir
  | directory
  | mount (cleanup : ℕ → Bool × List BufferCall) (accepted : Bool)
  | unmount (cleanup : ℕ → Bool × List BufferCall) (release : Bool)

/-- Whether there is no BAM buffer for the image, and the buffers afterwards. -/
def Chdir.run (b : Channels) : Chdir → Bool × Channels
  | directory => (false, b)
  | mount cleanup accepted =>
    let b := b.closeUser cleanup
    if accepted && b.bamBuffers.isEmpty then b.bamBufferAlloc else (false, b)
  | unmount cleanup release =>
    let b := b.closeUser cleanup
    (false, if release then b.bamBuffers.foldl Channels.freeBuffer b else b)

/-- A `CD` command, and its error message if there is one. -/
structure Cd where
  chdir : Chdir
  message : Option (List UInt8)

/-- `parse_doscommand` with `do_chdir`: whether there is an error, and the buffers afterwards. -/
def Cd.run (cd : Cd) (b : Channels) : Bool × Channels :=
  let r := cd.chdir.run (b.setError okMessage)
  match cd.message with
  | none => r
  | some msg => (true, r.2.setError msg)

/-- No buffer in front of the first free one is free. -/
theorem Table.firstFree_le {t : Table} {i j : ℕ} (h : t.firstFree = some i)
    (hfree : (t.buffers j).allocated = false) : i ≤ j := by
  by_contra hlt
  have hbefore := (List.find?_range_eq_some.mp h).2.2 j (by omega)
  rw [hfree] at hbefore
  exact absurd hbefore (by decide)

namespace Channels

variable {b b' b'' : Channels} {tbl n i : ℕ} {taken : List ℕ}

/-- Outside the `n` buffers of the table at `tbl`. -/
def Outside (tbl n i : ℕ) : Prop := i < tbl ∨ tbl + n ≤ i

/-- The menu's other buffers stay as they are, and no buffer of the table has been taken by another user,
unless the first one is now a BAM buffer. -/
structure Spares (b : Channels) (tbl n : ℕ) (taken : List ℕ) (b' : Channels) : Prop where
  count : b'.count = b.count
  other : ∀ i ∈ taken, Outside tbl n i →
    (b'.table.buffers i).allocated = (b.table.buffers i).allocated ∧
      (b'.table.buffers i).secondary = (b.table.buffers i).secondary ∧ (b'.chan i).next = (b.chan i).next
  table : ∀ k < n, (b'.table.buffers (tbl + k)).allocated = true →
    (b.table.buffers (tbl + k)).allocated = true ∧
        (b'.table.buffers (tbl + k)).secondary = (b.table.buffers (tbl + k)).secondary ∨
      k = 0 ∧ (b'.table.buffers (tbl + k)).secondary = BUFFER_SYS_BAM

theorem Spares.refl (b : Channels) (tbl n : ℕ) (taken : List ℕ) : b.Spares tbl n taken b :=
  ⟨rfl, fun _ _ _ => ⟨rfl, rfl, rfl⟩, fun _ _ halloc => .inl ⟨halloc, rfl⟩⟩

theorem Spares.trans (h : b.Spares tbl n taken b') (h' : b'.Spares tbl n taken b'') :
    b.Spares tbl n taken b'' := by
  refine ⟨h'.count.trans h.count, fun i hi hout => ?_, fun k hk halloc => ?_⟩
  · obtain ⟨ha, hs, hn⟩ := h.other i hi hout
    obtain ⟨ha', hs', hn'⟩ := h'.other i hi hout
    exact ⟨ha'.trans ha, hs'.trans hs, hn'.trans hn⟩
  · obtain ⟨halloc', hs'⟩ | hbam := h'.table k hk halloc
    · rw [hs']
      exact h.table k hk halloc'
    · exact .inr hbam

theorem spares_setError (b : Channels) (tbl n : ℕ) (taken : List ℕ) (msg : List UInt8) :
    b.Spares tbl n taken (b.setError msg) := by
  have hsecondary : ∀ i, ((b.setError msg).table.buffers i).secondary = (b.table.buffers i).secondary := by
    intro i
    obtain ⟨data, heq⟩ := b.setError_buffers msg i
    rw [heq]
  refine ⟨rfl, fun i _ _ => ⟨b.setError_allocated msg i, hsecondary i, b.setError_next msg i⟩, fun k _ h => ?_⟩
  rw [setError_allocated] at h
  exact .inl ⟨h, hsecondary _⟩

/-- A buffer that is not one of the menu's others can be freed. -/
theorem spares_freeBuffer (hi : i ∈ taken → ¬Outside tbl n i) : b.Spares tbl n taken (b.freeBuffer i) := by
  refine ⟨Table.freeBuffer_count _ _, fun j hj hout => ?_, fun k _ halloc => ?_⟩
  · have hne : j ≠ i := fun heq => hi (heq ▸ hj) (heq ▸ hout)
    have hsame : (b.freeBuffer i).table.buffers j = b.table.buffers j := Table.freeBuffer_of_ne _ hne
    rw [hsame]
    exact ⟨rfl, rfl, rfl⟩
  · have hsame : (b.freeBuffer i).table.buffers (tbl + k) = b.table.buffers (tbl + k) :=
      Table.freeBuffer_allocated halloc
    rw [hsame] at halloc ⊢
    exact .inl ⟨halloc, rfl⟩

/-- The menu's other buffers are system buffers; those of the table belong to the user, as long as the
menu has them. -/
structure Guarded (b : Channels) (tbl n : ℕ) (taken : List ℕ) : Prop where
  other : ∀ i ∈ taken, Outside tbl n i →
    (b.table.buffers i).allocated = true ∧ (b.table.buffers i).secondary = BUFFER_SEC_SYSTEM
  table : ∀ k < n, (b.table.buffers (tbl + k)).allocated = true →
    (b.table.buffers (tbl + k)).secondary = 0 ∨
      k = 0 ∧ (b.table.buffers (tbl + k)).secondary = BUFFER_SYS_BAM

/-- The place of the table is free, or the first one and taken by a BAM buffer. -/
def Vacant (b : Channels) (tbl k : ℕ) : Prop :=
  (b.table.buffers (tbl + k)).allocated = true →
    k = 0 ∧ (b.table.buffers (tbl + k)).secondary = BUFFER_SYS_BAM

theorem Guarded.spared (hg : b.Guarded tbl n taken) (h : b.Spares tbl n taken b') :
    b'.Guarded tbl n taken := by
  refine ⟨fun i hi hout => ?_, fun k hk halloc => ?_⟩
  · obtain ⟨ha, hs, -⟩ := h.other i hi hout
    rw [ha, hs]
    exact hg.other i hi hout
  · obtain ⟨halloc', hs⟩ | hbam := h.table k hk halloc
    · rw [hs]
      exact hg.table k hk halloc'
    · exact .inr hbam

theorem Vacant.spared {k : ℕ} (hv : b.Vacant tbl k) (hk : k < n) (h : b.Spares tbl n taken b') :
    b'.Vacant tbl k := by
  intro halloc
  obtain ⟨halloc', hs⟩ | hbam := h.table k hk halloc
  · rw [hs]
    exact hv halloc'
  · exact hbam

/-- `free_multiple_buffers` does not come to the menu's other buffers. -/
theorem Guarded.not_selected (hg : b.Guarded tbl n taken) (hi : i ∈ taken) (hout : Outside tbl n i) :
    b.table.selected FMB_USER_CLEAN i = false := by
  rw [Table.selected, (hg.other i hi hout).2]
  simp [FMB_USER_CLEAN]

/-- A place of the table that it passes over is vacant. -/
theorem Guarded.vacant {k : ℕ} (hg : b.Guarded tbl n taken) (hk : k < n)
    (hpass : ¬b.table.selected FMB_USER_CLEAN (tbl + k) = true) : b.Vacant tbl k := by
  intro halloc
  obtain huser | hbam := hg.table k hk halloc
  · refine absurd ?_ hpass
    rw [Table.selected, halloc, huser]
    simp [FMB_USER_CLEAN, BUFFER_SEC_SYSTEM]
  · exact hbam

/-- One that it frees is free. -/
theorem Guarded.vacant_freeBuffer {k : ℕ} (hg : b.Guarded tbl n taken) (hk : k < n) :
    (b.freeBuffer (tbl + k)).Vacant tbl k := by
  intro halloc
  have hsame : (b.freeBuffer (tbl + k)).table.buffers (tbl + k) = b.table.buffers (tbl + k) :=
    Table.freeBuffer_allocated halloc
  have hsecondary : (b.table.buffers (tbl + k)).secondary ≠ 15 := by
    obtain huser | ⟨-, hbam⟩ := hg.table k hk (hsame ▸ halloc)
    · rw [huser]
      decide
    · rw [hbam]
      decide
  have hfree : ((b.freeBuffer (tbl + k)).table.buffers (tbl + k)).allocated = false :=
    b.table.freeBuffer_self hsecondary
  rw [hfree] at halloc
  cases halloc

/-- Callbacks that spare the menu's buffers let `free_multiple_buffers` do so, and it frees the table. -/
theorem Guarded.sweep {cleanup : ℕ → Channels → Bool × Channels} {is : List ℕ} {res : Bool}
    (hg : b.Guarded tbl n taken)
    (hmeets : SweepMeets FMB_USER_CLEAN cleanup (fun i b => b.Spares tbl n taken (cleanup i b).2) is res b) :
    b.Spares tbl n taken (sweep FMB_USER_CLEAN cleanup is res b).state ∧
      ∀ k < n, tbl + k ∈ is → (sweep FMB_USER_CLEAN cleanup is res b).state.Vacant tbl k := by
  induction is generalizing res b with
  | nil => exact ⟨Spares.refl .., fun k _ hmem => absurd hmem List.not_mem_nil⟩
  | cons i is ih =>
    -- what is left to do once the callback has left the buffers as they are in `c`
    have hfree : ∀ {c : Channels} {res : Bool}, b.Spares tbl n taken c →
        b.table.selected FMB_USER_CLEAN i = true →
        SweepMeets FMB_USER_CLEAN cleanup (fun i b => b.Spares tbl n taken (cleanup i b).2) is res
          (c.freeBuffer i) →
        b.Spares tbl n taken (NoDiskEmu.sweep FMB_USER_CLEAN cleanup is res (c.freeBuffer i)).state ∧
          ∀ k < n, tbl + k ∈ i :: is →
            (NoDiskEmu.sweep FMB_USER_CLEAN cleanup is res (c.freeBuffer i)).state.Vacant tbl k := by
      intro c res hc hsel hrest
      have hfreed : c.Spares tbl n taken (c.freeBuffer i) := spares_freeBuffer fun hi hout => by
        rw [hg.not_selected hi hout] at hsel
        cases hsel
      have hgc := hg.spared hc
      obtain ⟨hspares, hvacant⟩ := ih (hgc.spared hfreed) hrest
      refine ⟨(hc.trans hfreed).trans hspares, fun k hk hmem => ?_⟩
      obtain heq | hmem := List.mem_cons.mp hmem
      · have hv := hgc.vacant_freeBuffer hk
        rw [heq] at hv
        exact hv.spared hk hspares
      · exact hvacant k hk hmem
    rw [SweepMeets] at hmeets
    rw [NoDiskEmu.sweep]
    split
    · next hsel =>
      rw [if_pos hsel] at hmeets
      split
      · next hcall =>
        rw [if_pos hcall] at hmeets
        exact hfree hmeets.1 hsel hmeets.2
      · next hcall =>
        rw [if_neg hcall] at hmeets
        exact hfree (Spares.refl ..) hsel hmeets
    · next hpass =>
      rw [if_neg hpass] at hmeets
      obtain ⟨hspares, hvacant⟩ := ih hg hmeets
      refine ⟨hspares, fun k hk hmem => ?_⟩
      obtain heq | hmem := List.mem_cons.mp hmem
      · exact (hg.vacant hk (heq ▸ hpass)).spared hk hspares
      · exact hvacant k hk hmem

/-- A new BAM buffer is not one of the menu's others, and of the vacant table at most the first. -/
theorem Guarded.bamBufferAlloc (hg : b.Guarded tbl n taken) (hbound : tbl + n ≤ b.count)
    (hv : ∀ k < n, b.Vacant tbl k) (hnone : b.bamBuffers = []) :
    b.Spares tbl n taken b.bamBufferAlloc.2 := by
  rw [Channels.bamBufferAlloc]
  obtain ⟨-, heq⟩ | ⟨i, hfirst, heq⟩ := b.allocSystemBuffer_first
  · rw [heq]
    exact spares_setError b tbl n taken _
  · rw [heq]
    obtain ⟨-, hfree⟩ := Table.firstFree_spec hfirst
    have hsame : ∀ j ≠ i, ((b.takeSystem i).table.set i { (b.takeSystem i).table.buffers i with
        secondary := BUFFER_SYS_BAM, sticky := true }).buffers j = b.table.buffers j := fun j hj =>
      (Table.set_of_ne _ _ hj).trans (Table.set_of_ne _ _ hj)
    refine ⟨rfl, fun j hj hout => ?_, fun k hk halloc => ?_⟩
    · have hne : j ≠ i := by
        rintro rfl
        rw [(hg.other j hj hout).1] at hfree
        cases hfree
      dsimp only
      rw [hsame j hne]
      exact ⟨rfl, rfl, congrArg Chan.next (setChan_of_ne _ _ hne)⟩
    · by_cases hki : tbl + k = i
      · have hhead : (b.table.buffers tbl).allocated = false := by
          by_contra htaken
          have hbam := (hv 0 (by omega) (by simpa using htaken)).2
          have hmem : tbl ∈ b.bamBuffers := List.mem_filter.mpr
            ⟨List.mem_range.mpr (by omega), by simpa using ⟨by simpa using htaken, hbam⟩⟩
          rw [hnone] at hmem
          exact absurd hmem List.not_mem_nil
        have hle := Table.firstFree_le hfirst hhead
        refine .inr ⟨by omega, ?_⟩
        dsimp only
        rw [hki, Table.set_self]
      · dsimp only at halloc ⊢
        rw [hsame _ hki] at halloc ⊢
        exact .inl ⟨halloc, rfl⟩

/-- The BAM buffers are not the menu's others. -/
theorem Guarded.freeBam (hg : b.Guarded tbl n taken) :
    b.Spares tbl n taken (b.bamBuffers.foldl Channels.freeBuffer b) := by
  have hbam : ∀ i ∈ b.bamBuffers, i ∈ taken → ¬Outside tbl n i := by
    intro i hi hmem hout
    have hsecondary := (hg.other i hmem hout).2
    have hfilter := (List.mem_filter.mp hi).2
    rw [hsecondary, Bool.and_eq_true] at hfilter
    exact absurd hfilter.2 (by decide)
  generalize b.bamBuffers = is at hbam
  clear hg
  induction is generalizing b with
  | nil => exact Spares.refl ..
  | cons i is ih =>
    have hfree : b.Spares tbl n taken (b.freeBuffer i) := spares_freeBuffer (hbam i List.mem_cons_self)
    exact hfree.trans (ih fun j hj => hbam j (List.mem_cons_of_mem i hj))

end Channels

/-- The callbacks of the buffers that are closed spare the menu's buffers. -/
def Chdir.Spares (c : Chdir) (b : Channels) (tbl n : ℕ) (taken : List ℕ) : Prop :=
  match c with
  | .directory => True
  | .mount cleanup _ | .unmount cleanup _ =>
    SweepMeets FMB_USER_CLEAN (DriveCall.callback cleanup)
      (fun i b => b.Spares tbl n taken (DriveCall.callback cleanup i b).2) (List.range b.count) false b

/-- So do those that a `CD` command calls. -/
abbrev Cd.Spares (cd : Cd) (b : Channels) (tbl n : ℕ) (taken : List ℕ) : Prop :=
  cd.chdir.Spares (b.setError okMessage) tbl n taken

namespace Channels

variable {b : Channels} {tbl n : ℕ} {taken : List ℕ}

/-- What a `CD` command leaves: the menu's other buffers, and the table unless it frees it. -/
structure Leaves (b : Channels) (tbl n : ℕ) (taken : List ℕ) (b' : Channels) : Prop
    extends b.Spares tbl n taken b' where
  freed : (∀ k < n, (b'.chan (tbl + k)).next = (b.chan (tbl + k)).next) ∨ ∀ k < n, b'.Vacant tbl k

theorem Leaves.refl (b : Channels) (tbl n : ℕ) (taken : List ℕ) : b.Leaves tbl n taken b :=
  ⟨Spares.refl .., .inl fun _ _ => rfl⟩

theorem Leaves.of_setError {b' : Channels} {msg : List UInt8} (h : (b.setError msg).Leaves tbl n taken b') :
    b.Leaves tbl n taken b' := by
  refine ⟨(spares_setError b tbl n taken msg).trans h.toSpares, h.freed.imp_left fun hlinks k hk => ?_⟩
  exact (hlinks k hk).trans (b.setError_next msg _)

theorem Leaves.setError {b' : Channels} (h : b.Leaves tbl n taken b') (msg : List UInt8) :
    b.Leaves tbl n taken (b'.setError msg) := by
  have hspares := spares_setError b' tbl n taken msg
  refine ⟨h.toSpares.trans hspares, h.freed.imp (fun hlinks k hk => ?_) fun hv k hk => ?_⟩
  · exact (b'.setError_next msg _).trans (hlinks k hk)
  · exact (hv k hk).spared hk hspares

/-- A change of the directory leaves the menu its buffers. -/
theorem Guarded.chdir (hg : b.Guarded tbl n taken) (hbound : tbl + n ≤ b.count) {c : Chdir}
    (hc : c.Spares b tbl n taken) : b.Leaves tbl n taken (c.run b).2 := by
  have hclose : ∀ {cleanup : ℕ → Bool × List BufferCall}, SweepMeets FMB_USER_CLEAN (DriveCall.callback cleanup)
      (fun i b => b.Spares tbl n taken (DriveCall.callback cleanup i b).2) (List.range b.count) false b →
      b.Spares tbl n taken (b.closeUser cleanup) ∧ ∀ k < n, (b.closeUser cleanup).Vacant tbl k := by
    intro cleanup hmeets
    obtain ⟨hspares, hv⟩ := hg.sweep hmeets
    exact ⟨hspares, fun k hk => hv k hk (List.mem_range.mpr (by omega))⟩
  cases c with
  | directory => exact Leaves.refl ..
  | mount cleanup accepted =>
    obtain ⟨hspares, hv⟩ := hclose hc
    rw [Chdir.run]
    split
    · next halloc =>
      have hnone : (b.closeUser cleanup).bamBuffers = [] :=
        List.isEmpty_iff.mp (Bool.and_eq_true _ _ ▸ halloc).2
      have hnew := (hg.spared hspares).bamBufferAlloc (hspares.count.symm ▸ hbound) hv hnone
      exact ⟨hspares.trans hnew, .inr fun k hk => (hv k hk).spared hk hnew⟩
    · exact ⟨hspares, .inr hv⟩
  | unmount cleanup release =>
    obtain ⟨hspares, hv⟩ := hclose hc
    rw [Chdir.run]
    dsimp only
    split
    · have hfree := (hg.spared hspares).freeBam
      exact ⟨hspares.trans hfree, .inr fun k hk => (hv k hk).spared hk hfree⟩
    · exact ⟨hspares, .inr hv⟩

/-- So does a `CD` command. -/
theorem Guarded.cd (hg : b.Guarded tbl n taken) (hbound : tbl + n ≤ b.count) {cd : Cd}
    (hcd : cd.Spares b tbl n taken) : b.Leaves tbl n taken (cd.run b).2 := by
  have hok := hg.spared (spares_setError b tbl n taken okMessage)
  have hchdir : b.Leaves tbl n taken (cd.chdir.run (b.setError okMessage)).2 := (hok.chdir hbound hcd).of_setError
  rw [Cd.run]
  cases cd.message with
  | none => exact hchdir
  | some msg => exact hchdir.setError msg

end Channels

end NoDiskEmu
