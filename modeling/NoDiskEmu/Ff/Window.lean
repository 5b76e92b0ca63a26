import Mathlib.Algebra.Group.Nat.Defs
import NoDiskEmu.Library.WriteBack

/-! The sector buffer of `ff.c`. All volumes share one buffer, for the sectors of the FAT and of
directories as well as for those of files. -/

namespace NoDiskEmu.Ff

open Library.WriteBack

abbrev Sector := ℕ → UInt8

inductive FsType
  | fat12 | fat16 | fat32
  deriving DecidableEq

/-- The size of an entry of the FAT in half bytes. -/
def FsType.nibbles : FsType → ℕ
  | .fat12 => 3
  | .fat16 => 4
  | .fat32 => 8

/-- The FAT sub type that `mount_drv` finds for a number of clusters. -/
def fsTypeOf (maxClust : ℕ) : FsType :=
  if maxClust < 0xff7 then .fat12 else if maxClust < 0xfff7 then .fat16 else .fat32

/-- `FATFS`, as far as it is fixed for a mounted volume. The FATs have room for all clusters, and
numbers of sectors fit into their type. -/
structure Volume where
  sectsFat : ℕ
  maxClust : ℕ
  fatbase : ℕ
  database : ℕ
  csize : ℕ
  nFats : ℕ
  fsiSector : ℕ
  fatbase_pos : 0 < fatbase
  nFats_pos : 0 < nFats
  csize_pos : 0 < csize
  csize_le : csize ≤ 128
  fsiSector_lt : fsiSector < fatbase
  fats_le : fatbase + nFats * sectsFat ≤ database
  table_le : (fsTypeOf maxClust).nibbles * maxClust ≤ 1024 * sectsFat
  maxClust_ge : 2 ≤ maxClust
  maxClust_le : maxClust ≤ 0x0fffffff
  sectors_lt : database + maxClust * csize < 2 ^ 32

namespace Volume

/-- `fs_type`. -/
def fsType (fs : Volume) : FsType := fsTypeOf fs.maxClust

/-- A sector of the first FAT, or one behind all FATs. -/
def Primary (fs : Volume) (sect : ℕ) : Prop :=
  fs.fatbase ≤ sect ∧ (sect < fs.fatbase + fs.sectsFat ∨ fs.fatbase + fs.nFats * fs.sectsFat ≤ sect)

end Volume

/-- The outcome of an access to a disk; a read that fails may have changed the buffer. -/
inductive Io
  | ok
  | failed (left : Sector)

/-- The disks with the buffer in front of them, what changes in the `FATFS` of each volume, and the
outcomes of the coming accesses. A sector is given by its volume and its number. -/
structure Disk where
  buf : Cache (ℕ × ℕ) Sector
  lastClust : ℕ → ℕ
  freeClust : ℕ → ℕ
  fsiFlag : ℕ → Bool
  io : ℕ → Io

namespace Disk

def nextIo (s : Disk) : Disk := { s with io := fun n => s.io (n + 1) }

/-- `disk_write`. -/
def diskWrite (s : Disk) (a : ℕ × ℕ) (data : Sector) : Bool × Disk :=
  match s.io 0 with
  | .ok => (true, { s.nextIo with buf := s.buf.direct a data })
  | .failed _ => (false, s.nextIo)

/-- `disk_read` into the buffer. -/
def loadWindow (s : Disk) (a : ℕ × ℕ) : Bool × Disk :=
  match s.io 0 with
  | .ok => (true, { s.nextIo with buf := s.buf.load a })
  | .failed left => (false, { s.nextIo with buf := { s.buf with block := left } })

/-- The loop of `move_window` that reflects a change to the other FATs. -/
def writeCopies (fs : Volume) : ℕ → ℕ → Disk → Disk
  | 0, _, s => s
  | n + 1, wsect, s =>
    writeCopies fs n (wsect + fs.sectsFat) (s.diskWrite (s.buf.tag.1, wsect + fs.sectsFat) s.buf.block).2

/-- The part of `move_window` that writes back the window if it is dirty. -/
def flushWindow (vol : ℕ → Volume) (s : Disk) : Bool × Disk :=
  if s.buf.dirty then
    match s.io 0 with
    | .failed _ => (false, s.nextIo)
    | .ok =>
      let fs := vol s.buf.tag.1
      let wsect := s.buf.tag.2
      let s := { s.nextIo with buf := s.buf.writeBack }
      (true, if wsect < fs.fatbase + fs.sectsFat then writeCopies fs (fs.nFats - 1) wsect s else s)
  else (true, s)

/-- `move_window`; sector 0 only writes back a dirty window. -/
def moveWindow (vol : ℕ → Volume) (s : Disk) (fs sector : ℕ) : Bool × Disk :=
  if s.buf.tag = (fs, sector) then (true, s)
  else
    let w := s.flushWindow vol
    if w.1 then if sector = 0 then w else w.2.loadWindow (fs, sector)
    else w

/-- The byte of `FSBUF.data` at `i` is set, and the buffer is dirty. -/
def setByte (s : Disk) (i : ℕ) (x : UInt8) : Disk :=
  { s with buf := s.buf.store (Function.update s.buf.block i x) }

section Specs

variable (vol : ℕ → Volume)

/-- The sectors that the buffer holds changes of. -/
def Primary (a : ℕ × ℕ) : Prop := (vol a.1).Primary a.2

abbrev Sound (s : Disk) : Prop := s.buf.Sound (Primary vol)

/-- Nothing has changed for the user of the buffer. -/
structure Same (s s' : Disk) : Prop where
  view : ∀ a, Primary vol a → s'.buf.view a = s.buf.view a
  lastClust : s'.lastClust = s.lastClust
  freeClust : s'.freeClust = s.freeClust
  fsiFlag : s'.fsiFlag = s.fsiFlag

/-- No access to a disk fails. -/
def Calm (s : Disk) : Prop := ∀ n, s.io n = .ok

/-- The other FATs on the disk are copies of the first one. -/
def Mirrored (s : Disk) : Prop :=
  ∀ v sect k, (vol v).fatbase ≤ sect → sect < (vol v).fatbase + (vol v).sectsFat → k < (vol v).nFats →
    s.buf.medium (v, sect + k * (vol v).sectsFat) = s.buf.medium (v, sect)

end Specs

variable {vol : ℕ → Volume} {s s' s'' : Disk} {fs sector : ℕ}

@[refl]
theorem Same.refl (s : Disk) : Same vol s s := ⟨fun _ _ => rfl, rfl, rfl, rfl⟩

theorem Same.trans (h : Same vol s s') (h' : Same vol s' s'') : Same vol s s'' where
  view a ha := (h'.view a ha).trans (h.view a ha)
  lastClust := h'.lastClust.trans h.lastClust
  freeClust := h'.freeClust.trans h.freeClust
  fsiFlag := h'.fsiFlag.trans h.fsiFlag

theorem Calm.nextIo (h : s.Calm) : s.nextIo.Calm := fun n => h (n + 1)

/-- What accesses to sectors other than the one in the buffer leave as it is. -/
structure Aside (vol : ℕ → Volume) (s s' : Disk) : Prop extends Same vol s s' where
  sound : s.Sound vol → s'.Sound vol
  tag : s'.buf.tag = s.buf.tag
  dirty : s'.buf.dirty = s.buf.dirty

theorem Aside.refl (s : Disk) : Aside vol s s := ⟨.refl s, id, rfl, rfl⟩

theorem Aside.trans (h : Aside vol s s') (h' : Aside vol s' s'') : Aside vol s s'' :=
  ⟨h.toSame.trans h'.toSame, h'.sound ∘ h.sound, h'.tag.trans h.tag, h'.dirty.trans h.dirty⟩

theorem Aside.nextIo : Aside vol s s.nextIo := ⟨⟨fun _ _ => rfl, rfl, rfl, rfl⟩, id, rfl, rfl⟩

/-- A sector that the buffer never holds changes of may be written past it. -/
theorem diskWrite_aside {a : ℕ × ℕ} (data : Sector) (ha : ¬Primary vol a) (htag : a ≠ s.buf.tag) :
    Aside vol s (s.diskWrite a data).2 := by
  rw [diskWrite]
  cases hio : s.io 0 with
  | failed left => exact .nextIo
  | ok =>
    refine ⟨⟨fun b hb => ?_, rfl, rfl, rfl⟩, fun hs => hs.direct htag, rfl, rfl⟩
    have hne : b ≠ a := fun heq => ha (heq ▸ hb)
    exact (congrFun (Cache.view_direct htag) b).trans (Function.update_of_ne hne ..)

section Copies

variable {sect : ℕ} (hsect : (vol fs).fatbase ≤ sect) (hlt : sect < (vol fs).fatbase + (vol fs).sectsFat)

include hlt

theorem copy_ne {sect' j k : ℕ} (hsect' : (vol fs).fatbase ≤ sect') (hsect : (vol fs).fatbase ≤ sect)
    (hlt' : sect' < (vol fs).fatbase + (vol fs).sectsFat)
    (h : sect' + k * (vol fs).sectsFat = sect + j * (vol fs).sectsFat) : sect' = sect ∧ k = j := by
  rcases Nat.lt_trichotomy k j with hkj | rfl | hkj
  · have := Nat.mul_le_mul_right (vol fs).sectsFat (show k + 1 ≤ j from hkj)
    rw [Nat.add_mul] at this
    omega
  · exact ⟨by omega, rfl⟩
  · have := Nat.mul_le_mul_right (vol fs).sectsFat (show j + 1 ≤ k from hkj)
    rw [Nat.add_mul] at this
    omega

include hsect

/-- A sector of another FAT is none that the buffer holds changes of. -/
theorem not_primary_copy {k : ℕ} (hpos : 0 < k) (hk : k < (vol fs).nFats) :
    ¬Primary vol (fs, sect + k * (vol fs).sectsFat) := by
  rintro ⟨-, hlow | hhigh⟩
  · have := Nat.mul_le_mul_right (vol fs).sectsFat (show 1 ≤ k from hpos)
    dsimp only at hlow
    omega
  · have := Nat.mul_le_mul_right (vol fs).sectsFat (show k + 1 ≤ (vol fs).nFats from hk)
    rw [Nat.add_mul] at this
    dsimp only at hhigh
    omega

theorem writeCopies_aside (n : ℕ) {k : ℕ} (htag : s.buf.tag = (fs, sect)) (hn : n + k < (vol fs).nFats) :
    Aside vol s (writeCopies (vol fs) n (sect + k * (vol fs).sectsFat) s) := by
  induction n generalizing s k with
  | zero => exact .refl s
  | succ n ih =>
    have hnot := not_primary_copy hsect hlt (Nat.succ_pos k) (by omega)
    have hne : (fs, sect + (k + 1) * (vol fs).sectsFat) ≠ s.buf.tag := by
      rw [htag]
      intro heq
      have hself : sect + (k + 1) * (vol fs).sectsFat = sect + 0 * (vol fs).sectsFat := by
        injection heq with _ heq
        rw [heq, Nat.zero_mul, Nat.add_zero]
      exact Nat.succ_ne_zero k (copy_ne hlt hsect hsect hlt hself).2
    have hwrite := diskWrite_aside s.buf.block hnot hne
    rw [writeCopies, htag, Nat.add_assoc, ← Nat.succ_mul]
    exact hwrite.trans (ih (hwrite.tag.trans htag) (by omega))

theorem writeCopies_calm (n : ℕ) {k : ℕ} (hs : s.Calm) (htag : s.buf.tag.1 = fs) :
    let r := writeCopies (vol fs) n (sect + k * (vol fs).sectsFat) s
    r.Calm ∧ (∀ j, k < j → j ≤ k + n → r.buf.medium (fs, sect + j * (vol fs).sectsFat) = s.buf.block) ∧
      ∀ a, (∀ j, k < j → j ≤ k + n → a ≠ (fs, sect + j * (vol fs).sectsFat)) →
        r.buf.medium a = s.buf.medium a := by
  induction n generalizing s k with
  | zero => exact ⟨hs, fun j hj hjk => absurd hj (by omega), fun _ _ => rfl⟩
  | succ n ih =>
    rw [writeCopies, htag, Nat.add_assoc, ← Nat.succ_mul, diskWrite, hs 0]
    let a := (fs, sect + (k + 1) * (vol fs).sectsFat)
    obtain ⟨hcalm, hin, hout⟩ := ih (k := k + 1) (s := { s.nextIo with buf := s.buf.direct a s.buf.block })
      (fun n => hs (n + 1)) htag
    refine ⟨hcalm, fun j hj hjk => ?_, fun a ha => ?_⟩
    · by_cases hself : j = k + 1
      · subst hself
        refine (hout _ fun i hi _ heq => ?_).trans (Function.update_self ..)
        injection heq with _ heq
        have := (copy_ne hlt hsect hsect hlt heq).2
        omega
      · exact hin j (by omega) (by omega)
    · refine (hout a fun j hj hjk => ha j (by omega) (by omega)).trans ?_
      exact Function.update_of_ne (ha (k + 1) (by omega) (by omega)) ..

end Copies

/-- A window that was written back is no longer dirty. -/
theorem flushWindow_spec (hs : s.Sound vol) (h : (s.flushWindow vol).1 = true) :
    Same vol s (s.flushWindow vol).2 ∧ (s.flushWindow vol).2.Sound vol ∧
      (s.flushWindow vol).2.buf.dirty = false := by
  rw [flushWindow] at h ⊢
  cases hdirty : s.buf.dirty with
  | false => exact ⟨.refl s, hs, hdirty⟩
  | true =>
    rw [hdirty, if_pos rfl] at h
    rw [if_pos rfl]
    cases hio : s.io 0 with
    | failed left =>
      rw [hio] at h
      cases h
    | ok =>
      have hback : Same vol s { s.nextIo with buf := s.buf.writeBack } :=
        ⟨fun a _ => congrFun Cache.view_writeBack a, rfl, rfl, rfl⟩
      have hsound : Sound vol { s.nextIo with buf := s.buf.writeBack } := Cache.Sound.writeBack
      dsimp only
      by_cases hfat : s.buf.tag.2 < (vol s.buf.tag.1).fatbase + (vol s.buf.tag.1).sectsFat
      · have hcopies := writeCopies_aside (s := { s.nextIo with buf := s.buf.writeBack }) (hs.dirty hdirty).1 hfat
          ((vol s.buf.tag.1).nFats - 1) (k := 0) rfl (by have := (vol s.buf.tag.1).nFats_pos; omega)
        rw [Nat.zero_mul, Nat.add_zero] at hcopies
        rw [if_pos hfat]
        exact ⟨hback.trans hcopies.toSame, hcopies.sound hsound, hcopies.dirty⟩
      · rw [if_neg hfat]
        exact ⟨hback, hsound, rfl⟩

theorem flushWindow_calm (hs : s.Sound vol) (h : s.Calm) :
    (s.flushWindow vol).1 = true ∧ (s.flushWindow vol).2.Calm ∧
      (s.Mirrored vol → (s.flushWindow vol).2.Mirrored vol) := by
  by_cases hclean : ¬s.buf.dirty = true
  · rw [flushWindow, if_neg hclean]
    exact ⟨rfl, h, id⟩
  have hdirty := not_not.mp hclean
  rw [flushWindow, if_pos hdirty, h 0]
  dsimp only
  refine ⟨rfl, ?_⟩
  let t : Disk := { s.nextIo with buf := s.buf.writeBack }
  have hprimary := hs.dirty hdirty
  by_cases hfat : s.buf.tag.2 < (vol s.buf.tag.1).fatbase + (vol s.buf.tag.1).sectsFat
  · rw [if_pos hfat]
    obtain ⟨hcalm, hin, hout⟩ := writeCopies_calm (s := t) (k := 0)
      hprimary.1 hfat ((vol s.buf.tag.1).nFats - 1) (fun n => h (n + 1)) rfl
    rw [Nat.zero_mul, Nat.add_zero] at hcalm hin hout
    refine ⟨hcalm, fun hm v sect k hbase hlt hk => ?_⟩
    -- the FAT sector that was in the buffer, in all FATs, or another one
    by_cases hself : (v, sect) = s.buf.tag
    · have hzero : ∀ j, 0 < j → j ≤ 0 + ((vol s.buf.tag.1).nFats - 1) →
          s.buf.tag ≠ (s.buf.tag.1, s.buf.tag.2 + j * (vol s.buf.tag.1).sectsFat) := by
        intro j hj _ heq
        have hz : s.buf.tag.2 + 0 * (vol s.buf.tag.1).sectsFat =
            s.buf.tag.2 + j * (vol s.buf.tag.1).sectsFat := by
          rw [Nat.zero_mul, Nat.add_zero]
          exact congrArg Prod.snd heq
        have := (copy_ne hfat hprimary.1 hprimary.1 hfat hz).2
        omega
      have hfirst : (writeCopies (vol s.buf.tag.1) ((vol s.buf.tag.1).nFats - 1) s.buf.tag.2 t).buf.medium
          s.buf.tag = s.buf.block := (hout _ hzero).trans (Function.update_self ..)
      obtain ⟨rfl, rfl⟩ : v = s.buf.tag.1 ∧ sect = s.buf.tag.2 := ⟨congrArg Prod.fst hself, congrArg Prod.snd hself⟩
      refine Eq.trans ?_ hfirst.symm
      by_cases hk0 : k = 0
      · subst hk0
        rw [Nat.zero_mul, Nat.add_zero]
        exact hfirst
      · exact hin k (by omega) (by omega)
    · have hother : ∀ j < (vol v).nFats, ∀ i, i ≤ 0 + ((vol s.buf.tag.1).nFats - 1) →
          (v, sect + j * (vol v).sectsFat) ≠
            (s.buf.tag.1, s.buf.tag.2 + i * (vol s.buf.tag.1).sectsFat) := by
        intro j _ i _ heq
        obtain rfl : v = s.buf.tag.1 := congrArg Prod.fst heq
        have := (copy_ne hfat hbase hprimary.1 hlt (congrArg Prod.snd heq)).1
        exact hself (by rw [this])
      have hkeep : ∀ j < (vol v).nFats,
          (writeCopies (vol s.buf.tag.1) ((vol s.buf.tag.1).nFats - 1) s.buf.tag.2 t).buf.medium
            (v, sect + j * (vol v).sectsFat) = s.buf.medium (v, sect + j * (vol v).sectsFat) := by
        intro j hj
        refine (hout _ fun i _ hi => hother j hj i hi).trans ?_
        have hzero := hother j hj 0 (Nat.zero_le _)
        rw [Nat.zero_mul, Nat.add_zero] at hzero
        exact Function.update_of_ne hzero ..
      have hzero := hkeep 0 (vol v).nFats_pos
      rw [Nat.zero_mul, Nat.add_zero] at hzero
      exact (hkeep k hk).trans ((hm v sect k hbase hlt hk).trans hzero.symm)
  · rw [if_neg hfat]
    refine ⟨fun n => h (n + 1), fun hm v sect k hbase hlt hk => ?_⟩
    have hhigh := hprimary.2.resolve_left hfat
    have hkeep : ∀ j < (vol v).nFats, (v, sect + j * (vol v).sectsFat) ≠ s.buf.tag := by
      intro j hj heq
      obtain rfl : v = s.buf.tag.1 := congrArg Prod.fst heq
      have hs2 : sect + j * (vol s.buf.tag.1).sectsFat = s.buf.tag.2 := congrArg Prod.snd heq
      have := Nat.mul_le_mul_right (vol s.buf.tag.1).sectsFat (show j + 1 ≤ (vol s.buf.tag.1).nFats from hj)
      rw [Nat.add_mul] at this
      omega
    have hzero := hkeep 0 (vol v).nFats_pos
    rw [Nat.zero_mul, Nat.add_zero] at hzero
    exact (Function.update_of_ne (hkeep k hk) ..).trans ((hm v sect k hbase hlt hk).trans
      (Function.update_of_ne hzero ..).symm)

/-- A window that moves shows the same disk as before, and the sector it moved to. -/
theorem moveWindow_spec (hs : s.Sound vol) (h : (s.moveWindow vol fs sector).1 = true) :
    Same vol s (s.moveWindow vol fs sector).2 ∧ (s.moveWindow vol fs sector).2.Sound vol ∧
      (sector ≠ 0 → (s.moveWindow vol fs sector).2.buf.tag = (fs, sector)) ∧
        (sector = 0 → (s.moveWindow vol fs sector).2.buf.dirty = false) := by
  rw [moveWindow] at h ⊢
  by_cases htag : s.buf.tag = (fs, sector)
  · rw [if_pos htag]
    refine ⟨.refl s, hs, fun _ => htag, fun hzero => Bool.eq_false_iff.mpr fun hdirty => ?_⟩
    have hbase := (hs.dirty hdirty).1
    rw [htag, hzero] at hbase
    exact absurd hbase (Nat.not_le_of_gt (vol fs).fatbase_pos)
  · rw [if_neg htag] at h ⊢
    dsimp only at h ⊢
    cases hok : (s.flushWindow vol).1 with
    | false =>
      rw [hok] at h
      exact absurd (hok.symm.trans h) Bool.noConfusion
    | true =>
      obtain ⟨hsame, hsound, hclean⟩ := flushWindow_spec hs hok
      rw [hok, if_pos rfl] at h
      rw [if_pos rfl]
      by_cases hzero : sector = 0
      · rw [if_pos hzero]
        exact ⟨hsame, hsound, fun hne => absurd hzero hne, fun _ => hclean⟩
      · rw [if_neg hzero, loadWindow] at h ⊢
        cases hio : (s.flushWindow vol).2.io 0 with
        | failed left =>
          rw [hio] at h
          cases h
        | ok =>
          refine ⟨hsame.trans ⟨fun a ha => ?_, rfl, rfl, rfl⟩, Cache.Sound.load _, fun _ => rfl,
            fun h0 => absurd h0 hzero⟩
          exact Cache.view_load hsound hclean ha

theorem moveWindow_calm (hs : s.Sound vol) (h : s.Calm) (fs sector : ℕ) :
    (s.moveWindow vol fs sector).1 = true ∧ (s.moveWindow vol fs sector).2.Calm ∧
      (s.Mirrored vol → (s.moveWindow vol fs sector).2.Mirrored vol) := by
  rw [moveWindow]
  by_cases htag : s.buf.tag = (fs, sector)
  · rw [if_pos htag]
    exact ⟨rfl, h, id⟩
  · rw [if_neg htag]
    obtain ⟨hok, hcalm, hmirror⟩ := flushWindow_calm hs h
    dsimp only
    rw [if_pos hok]
    by_cases hzero : sector = 0
    · rw [if_pos hzero]
      exact ⟨hok, hcalm, hmirror⟩
    · rw [if_neg hzero, loadWindow, hcalm 0]
      exact ⟨rfl, fun n => hcalm (n + 1), hmirror⟩

end Disk

end NoDiskEmu.Ff
