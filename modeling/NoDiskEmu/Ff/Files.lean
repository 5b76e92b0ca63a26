import NoDiskEmu.Ff.Seek
import NoDiskEmu.Library.File

/-! Open files of several volumes on one disk, and the arrays of bytes that they are. -/

namespace NoDiskEmu.Ff

open Library Library.Chain Library.WriteBack Fat

/-- The results of a call that an access has failed for. -/
def Failed (r : FResult) : Prop := r = .notReady ∨ r = .rwError

instance (r : FResult) : Decidable (Failed r) := inferInstanceAs (Decidable (_ ∨ _))

namespace Disk

variable {vol : ℕ → Volume} {s : Disk}

theorem Healthy.nextIo (h : s.Healthy vol) : s.nextIo.Healthy vol :=
  ⟨fun n => h.calm (n + 1), h.mirrored⟩

theorem relinked_nextIo (hs : s.Sound vol) : Relinked vol (s.link vol) s s.nextIo :=
  ⟨hs, Healthy.nextIo, rfl, fun _ _ => rfl, rfl, rfl, rfl⟩

theorem sick_of_failed {left : Sector} (h : s.io 0 = .failed left) : ¬s.Healthy vol := fun hs => by
  cases h.symm.trans (hs.calm 0)

end Disk

namespace Fil

open NoDiskEmu.Ff.Disk

/-- The record of an open file agrees with its chain. -/
structure Opened (v : Volume) (cs : List ℕ) (fp : Fil) : Prop where
  orgClust : fp.orgClust = cs.headD 0
  stands : fp.Placed v cs ∨ fp.Spent v cs
  fptr_le : fp.fptr ≤ fp.fsize
  fsize_le : fp.fsize ≤ 512 * (cs.length * v.csize)
  fsize_lt : fp.fsize < 2 ^ 32

/-- The start of a file. -/
theorem Opened.start {v : Volume} {cs : List ℕ} {fp fp' : Fil} (h : fp.Opened v cs) (hclust : fp'.orgClust = fp.orgClust)
    (hsize : fp'.fsize = fp.fsize) (hptr : fp'.fptr = 0) (hcsect : fp'.csect = 1) : fp'.Opened v cs where
  orgClust := hclust.trans h.orgClust
  stands := .inl (.inl ⟨hptr, hcsect⟩)
  fptr_le := hptr ▸ Nat.zero_le _
  fsize_le := hsize ▸ h.fsize_le
  fsize_lt := hsize ▸ h.fsize_lt

/-- The same file, opened for the same. -/
def Kin (fp fp' : Fil) : Prop :=
  ∃ written csect fptr fsize orgClust currClust currSect,
    fp' = { fp with written, csect, fptr, fsize, orgClust, currClust, currSect }

/-- What a call for an open file does, whatever it transfers. -/
structure Moved (vol : ℕ → Volume) (fs : ℕ) (cs cs' : List ℕ) (fp fp' : Fil) (s s' : Disk) : Prop where
  effect : Effect vol fs cs s cs' s'
  opened : fp'.Opened (vol fs) cs'
  kin : fp.Kin fp'
  unwritten : fp'.written = false → fp.written = false ∧ fp'.fsize = fp.fsize ∧ fp'.orgClust = fp.orgClust

theorem kin_of {fp fp' : Fil} {written : Bool} {csect fptr fsize orgClust currClust currSect : ℕ}
    (h : fp' = { fp with written, csect, fptr, fsize, orgClust, currClust, currSect }) : fp.Kin fp' :=
  ⟨_, _, _, _, _, _, _, h⟩

/-- Where `f_lseek` tries to go. -/
def target (fp : Fil) (ofs : ℕ) : ℕ := if fp.fsize < ofs ∧ fp.write = false then fp.fsize else ofs

variable {vol : ℕ → Volume} {fs : ℕ} {cs : List ℕ} {s : Disk} {fp : Fil}

section Guards

variable (hfs : fp.fs = some fs) (herror : fp.error = false)
include hfs

theorem validate_failed {left : Sector} (hio : s.io 0 = .failed left) : s.validate fp.fs = (.notReady, s.nextIo) := by
  rw [hfs]
  simp only [Disk.validate, hio]

include herror

theorem fRead_of_ok (hmode : fp.read = true) (hio : s.io 0 = .ok) {btr n : ℕ}
    (hn : min btr ((fp.fsize + 2 ^ 32 - fp.fptr) % 2 ^ 32) = n) :
    fp.fRead vol s btr =
      let r := fp.readLoop vol fs n n s.nextIo
      if r.1 then (.ok, r.2) else (.rwError, r.2.1, r.2.2.1.abort, r.2.2.2) := by
  subst hn
  simp [fRead, Disk.validate, hfs, hio, herror, hmode]

theorem fWrite_of_ok (hmode : fp.write = true) (hio : s.io 0 = .ok) (wbuff : List UInt8) :
    fp.fWrite vol s wbuff =
      if (fp.fsize + wbuff.length) % 2 ^ 32 < fp.fsize then (.ok, 0, fp, s.nextIo)
      else
        let r := fp.writeLoop vol fs wbuff.length wbuff s.nextIo
        if r.1 then
          (.ok, r.2.1, { r.2.2.1 with
            fsize := if r.2.2.1.fsize < r.2.2.1.fptr then r.2.2.1.fptr else r.2.2.1.fsize, written := true }, r.2.2.2)
        else (.rwError, r.2.1, r.2.2.1.abort, r.2.2.2) := by
  simp [fWrite, Disk.validate, hfs, hio, herror, hmode]

theorem fLseek_of_ok (hio : s.io 0 = .ok) (ofs : ℕ) :
    fp.fLseek vol s ofs =
      if fp.fptr = ofs then (.ok, fp, s.nextIo)
      else
        let m := s.nextIo.moveWindow vol fs 0
        if m.1 = false then (.rwError, fp.abort, m.2)
        else
          let r := if fp.target ofs = 0 then (true, { fp with fptr := 0, csect := 1 }, m.2)
            else fp.seekOn vol fs m.2 (fp.target ofs)
          if r.1 = false then (.rwError, r.2.1.abort, r.2.2)
          else
            (.ok, if r.2.1.fsize < r.2.1.fptr then { r.2.1 with fsize := r.2.1.fptr, written := true } else r.2.1,
              r.2.2) := by
  simp [fLseek, target, Disk.validate, hfs, hio, herror]

end Guards

/-- `f_read`: the bytes from the position on, as far as the file goes. -/
theorem fRead_spec (hs : s.Sound vol) (hchain : IsChain (s.link vol) (cells fs cs)) (h : fp.Opened (vol fs) cs)
    (hfs : fp.fs = some fs) (herror : fp.error = false) (hmode : fp.read = true) (btr : ℕ) :
    let r := fp.fRead vol s btr
    (Failed r.1 ∧ ¬s.Healthy vol) ∨
      (r.1 = .ok ∧ Moved vol fs cs cs fp r.2.2.1 s r.2.2.2 ∧ KeepsData vol s r.2.2.2 ∧
        r.2.2.1.fsize = fp.fsize ∧ r.2.2.1.fptr = fp.fptr + min btr (fp.fsize - fp.fptr) ∧
        r.2.1 = (List.range (min btr (fp.fsize - fp.fptr))).map fun i => s.byte vol fs cs (fp.fptr + i)) := by
  have hle := h.fptr_le
  have hlt := h.fsize_lt
  have hroom := h.fsize_le
  have hleft : (fp.fsize + 2 ^ 32 - fp.fptr) % 2 ^ 32 = fp.fsize - fp.fptr := by omega
  cases hio : s.io 0 with
  | failed left =>
    rw [fRead, validate_failed hfs hio]
    exact .inl ⟨.inl rfl, sick_of_failed hio⟩
  | ok =>
    rw [fRead_of_ok hfs herror hmode hio (by rw [hleft])]
    generalize hn : min btr (fp.fsize - fp.fptr) = n
    have hnext := relinked_nextIo hs
    obtain hplaced | hspent := h.stands
    · obtain ⟨hno, hsick⟩ | ⟨hok, hdata, hplaced', ⟨_, _, _, heq⟩, hquiet⟩ :=
        readLoop_spec n hnext.sound hchain hplaced h.orgClust le_rfl (by omega)
      · dsimp only
        rw [if_neg (by rw [hno]; exact Bool.noConfusion)]
        exact .inl ⟨.inr rfl, fun h => hsick h.nextIo⟩
      · dsimp only
        have hall := hnext.trans hquiet
        rw [if_pos hok]
        rw [heq] at hplaced' ⊢
        refine .inr ⟨rfl, ⟨(Effect.refl hs).quiet hall, ⟨h.orgClust, .inl hplaced', ?_, hroom, hlt⟩, kin_of rfl,
          fun hw => ⟨hw, rfl, rfl⟩⟩, hall.data, rfl, rfl, hdata⟩
        show fp.fptr + n ≤ fp.fsize
        omega
    · -- a spent handle is at the end of the file
      obtain ⟨-, -, hend⟩ := hspent
      obtain rfl : n = 0 := by omega
      exact .inr ⟨rfl, ⟨(Effect.refl hs).quiet hnext, h, kin_of rfl, fun hw => ⟨hw, rfl, rfl⟩⟩, fun _ _ => rfl, rfl, rfl, rfl⟩

theorem grown (n m : ℕ) : (if n < m then m else n) = max n m := by
  split <;> omega

/-- What `f_write` comes to: the first `n` bytes are in the file. -/
structure Put (vol : ℕ → Volume) (fs : ℕ) (cs cs' : List ℕ) (wbuff : List UInt8) (n : ℕ) (fp fp' : Fil)
    (s s' : Disk) : Prop where
  moved : Moved vol fs cs cs' fp fp' s s'
  wrote : Wrote vol fs cs cs' fp.fptr n wbuff s s'
  fptr : fp'.fptr = fp.fptr + n
  fsize : fp'.fsize = max fp.fsize (fp.fptr + n)
  le : n ≤ wbuff.length
  short : n = wbuff.length ∨ Full vol fs s' ∨ 2 ^ 32 ≤ fp.fsize + wbuff.length

theorem fWrite_spec (hs : s.Sound vol) (hchain : IsChain (s.link vol) (cells fs cs)) (hbad : s.NoBad vol fs)
    (h : fp.Opened (vol fs) cs) (hfs : fp.fs = some fs) (herror : fp.error = false) (hmode : fp.write = true)
    (wbuff : List UInt8) (hshort : wbuff.length < 512) (hspare : wbuff ≠ [] → fp.csect ≠ 0) :
    let r := fp.fWrite vol s wbuff
    (Failed r.1 ∧ ¬s.Healthy vol) ∨
      (r.1 = .ok ∧ ∃ cs', Put vol fs cs cs' wbuff r.2.1 fp r.2.2.1 s r.2.2.2) := by
  have hle := h.fptr_le
  have hlt := h.fsize_lt
  have hroom := h.fsize_le
  cases hio : s.io 0 with
  | failed left =>
    rw [fWrite, validate_failed hfs hio]
    exact .inl ⟨.inl rfl, sick_of_failed hio⟩
  | ok =>
    rw [fWrite_of_ok hfs herror hmode hio]
    have hnext := relinked_nextIo hs
    have hkeep : KeepsData vol s s.nextIo := fun _ _ => rfl
    have hself : Effect vol fs cs s cs s.nextIo := (Effect.refl hs).quiet hnext
    by_cases hover : (fp.fsize + wbuff.length) % 2 ^ 32 < fp.fsize
    · rw [if_pos hover]
      refine .inr ⟨rfl, cs, ⟨hself, h, kin_of rfl, fun hw => ⟨hw, rfl, rfl⟩⟩, hkeep.wrote _ _ hchain List.prefix_rfl, rfl, ?_,
        Nat.zero_le _, .inr (.inr (by omega))⟩
      exact (Nat.max_eq_left hle).symm
    rw [if_neg hover]
    obtain hplaced | hspent := h.stands
    · obtain ⟨hno, hsick⟩ | ⟨hok, cs', hdone⟩ :=
        writeLoop_spec wbuff.length hnext.sound hchain hbad hplaced h.orgClust le_rfl hshort
      · dsimp only
        rw [if_neg (by rw [hno]; exact Bool.noConfusion)]
        exact .inl ⟨.inr rfl, fun h => hsick h.nextIo⟩
      · dsimp only
        rw [if_pos hok]
        have hcount := hdone.le
        have htotal := hself.trans hdone.effect
        obtain ⟨_, _, _, heq⟩ := hdone.fil
        have hstop := hdone.stop
        have hwrote := hdone.wrote
        generalize fp.writeLoop vol fs wbuff.length wbuff s.nextIo = r at hok heq hstop hcount hwrote htotal ⊢
        rw [heq] at hstop ⊢
        have hlen := Nat.mul_le_mul_right (vol fs).csize htotal.isPrefix.length_le
        have hroom' : fp.fptr + r.2.1 ≤ 512 * (cs'.length * (vol fs).csize) := by
          obtain ⟨hplaced', -⟩ | ⟨⟨-, -, hend⟩, -⟩ := hstop
          · exact hplaced'.le
          · exact hend.le
        have hsize : (if fp.fsize < fp.fptr + r.2.1 then fp.fptr + r.2.1 else fp.fsize) = max fp.fsize (fp.fptr + r.2.1) :=
          grown _ _
        refine .inr ⟨rfl, cs', ⟨htotal, ⟨rfl, hstop.imp And.left And.left, ?_, ?_, ?_⟩, kin_of rfl, nofun⟩, hwrote, rfl,
          hsize, hcount, hstop.imp And.right fun h => .inl h.2.2⟩
        · exact hsize ▸ Nat.le_max_right ..
        · refine hsize ▸ Nat.max_le.mpr ⟨?_, hroom'⟩
          omega
        · refine hsize ▸ Nat.max_lt.mpr ⟨hlt, ?_⟩
          omega
    · -- nothing is written to a spent handle
      obtain rfl : wbuff = [] := by
        by_contra hne
        exact hspare hne hspent.1
      have hsize : (if fp.fsize < fp.fptr then fp.fptr else fp.fsize) = fp.fsize := if_neg (by omega)
      refine .inr ⟨rfl, cs, ⟨hself, ⟨h.orgClust, .inr hspent, hle.trans hsize.ge, hsize.le.trans hroom,
        hsize.trans_lt hlt⟩, kin_of rfl, nofun⟩, hkeep.wrote _ _ hchain List.prefix_rfl, rfl,
        hsize.trans (Nat.max_eq_left hle).symm, le_rfl, .inl rfl⟩

/-- What `f_lseek` comes to; the position is the target, or on a full volume the end of the last cluster. -/
structure Gone (vol : ℕ → Volume) (fs : ℕ) (cs cs' : List ℕ) (target : ℕ) (fp fp' : Fil) (s s' : Disk) : Prop where
  moved : Moved vol fs cs cs' fp fp' s s'
  keeps : KeepsData vol s s'
  fsize : fp'.fsize = max fp.fsize fp'.fptr
  stop : fp'.fptr = target ∨ fp'.fptr < target ∧ fp'.fptr = 512 * (cs'.length * (vol fs).csize) ∧ Full vol fs s' ∧
    fp.write = true

theorem target_le (ofs : ℕ) (h : fp.write = false) : fp.target ofs ≤ fp.fsize := by
  rw [target]
  split <;> grind

theorem target_lt {ofs n : ℕ} (hsize : fp.fsize < n) (hofs : ofs < n) : fp.target ofs < n := by
  rw [target]
  split
  · exact hsize
  · exact hofs

theorem Seekable.relinked {s' : Disk} {ofs : ℕ} (h : fp.Seekable vol fs ofs s)
    (hr : Relinked vol (s.link vol) s s') : fp.Seekable vol fs ofs s' where
  ahead := h.ahead
  wrap := h.wrap
  room hzero hfull := h.room hzero fun c hc hlt => hr.link ▸ hfull c hc hlt

theorem Sought.gone {cs' : List ℕ} {fp' : Fil} {s' : Disk} {ofs : ℕ} (h : Sought vol fs cs cs' ofs fp fp' s s')
    (hopen : fp.Opened (vol fs) cs) (hofs : ofs < 2 ^ 32) :
    Gone vol fs cs cs' ofs fp (if fp'.fsize < fp'.fptr then { fp' with fsize := fp'.fptr, written := true } else fp')
      s s' := by
  have hroom := hopen.fsize_le
  have hlt := hopen.fsize_lt
  have hlen := Nat.mul_le_mul_right (vol fs).csize h.effect.isPrefix.length_le
  have hend := h.placed.le
  have hstop := h.stop
  have hplaced := h.placed
  have hhead := h.chain_eq
  obtain ⟨_, _, _, heq⟩ := h.fil
  generalize fp'.fptr = n at heq hstop hend hhead
  subst heq
  by_cases hgrow : fp.fsize < n
  · rw [if_pos hgrow]
    refine ⟨⟨h.effect, ⟨rfl, .inl hplaced, le_rfl, hend, ?_⟩, kin_of rfl, nofun⟩, h.keeps,
      (Nat.max_eq_right hgrow.le).symm, hstop⟩
    show n < 2 ^ 32
    omega
  · rw [if_neg hgrow]
    refine ⟨⟨h.effect, ⟨rfl, .inl hplaced, Nat.le_of_not_lt hgrow, ?_, hlt⟩, kin_of rfl, fun hw => ⟨hw, rfl, ?_⟩⟩,
      h.keeps, (Nat.max_eq_left (Nat.le_of_not_lt hgrow)).symm, hstop⟩
    · show fp.fsize ≤ _
      omega
    · show cs'.headD 0 = fp.orgClust
      rw [hopen.orgClust]
      cases cs with
      | nil =>
        have hzero : n = 0 := by
          rw [List.length_nil, Nat.zero_mul] at hroom
          omega
        rw [hhead hzero]
      | cons c cs => exact headD_of_isPrefix h.effect.isPrefix (k := 0) rfl

theorem fLseek_spec (hs : s.Sound vol) (hchain : IsChain (s.link vol) (cells fs cs)) (hbad : s.NoBad vol fs)
    (h : fp.Opened (vol fs) cs) (hfs : fp.fs = some fs) (herror : fp.error = false) {ofs : ℕ} (hofs : ofs < 2 ^ 32)
    (hseek : fp.target ofs ≠ 0 → fp.fptr ≠ ofs → fp.Seekable vol fs (fp.target ofs) s) :
    let r := fp.fLseek vol s ofs
    (Failed r.1 ∧ ¬s.Healthy vol) ∨
      (r.1 = .ok ∧ ∃ cs', Gone vol fs cs cs' (if fp.fptr = ofs then ofs else fp.target ofs) fp r.2.1 s r.2.2) := by
  have hle := h.fptr_le
  have hlt := h.fsize_lt
  have hroom := h.fsize_le
  cases hio : s.io 0 with
  | failed left =>
    rw [fLseek, validate_failed hfs hio]
    exact .inl ⟨.inl rfl, sick_of_failed hio⟩
  | ok =>
    have hnext := relinked_nextIo hs
    have hkeep : KeepsData vol s s.nextIo := fun _ _ => rfl
    have hself : Effect vol fs cs s cs s.nextIo := (Effect.refl hs).quiet hnext
    rw [fLseek_of_ok hfs herror hio]
    by_cases hstay : fp.fptr = ofs
    · rw [if_pos hstay, if_pos hstay]
      exact .inr ⟨rfl, cs, ⟨hself, h, kin_of rfl, fun hw => ⟨hw, rfl, rfl⟩⟩, hkeep, (Nat.max_eq_left hle).symm, .inl hstay⟩
    rw [if_neg hstay, if_neg hstay]
    obtain ⟨hno, hsick⟩ | ⟨hok, hmove, -, -⟩ := moveWindow_link hnext.sound fs 0
    · rw [if_pos hno]
      exact .inl ⟨.inr rfl, fun h => hsick h.nextIo⟩
    rw [if_neg (by rw [hok]; exact Bool.noConfusion)]
    dsimp only
    have hall := hnext.trans hmove
    have hself' : Effect vol fs cs s cs (s.nextIo.moveWindow vol fs 0).2 := hself.quiet hmove
    generalize (s.nextIo.moveWindow vol fs 0).2 = t at hall hself' ⊢
    have hsought : let r := if fp.target ofs = 0 then (true, { fp with fptr := 0, csect := 1 }, t)
          else fp.seekOn vol fs t (fp.target ofs)
        (r.1 = false ∧ ¬s.Healthy vol) ∨ (r.1 = true ∧ ∃ cs', Sought vol fs cs cs' (fp.target ofs) fp r.2.1 s r.2.2) := by
      by_cases hzero : fp.target ofs = 0
      · rw [if_pos hzero, hzero]
        exact .inr ⟨rfl, cs, hself', hall.data, .inl ⟨rfl, rfl⟩, ⟨_, _, _, by rw [← h.orgClust]⟩, fun _ => rfl, .inl rfl⟩
      · rw [if_neg hzero]
        have hready := hseek hzero hstay
        obtain ⟨hno, hsick⟩ | ⟨hok, cs', hdone⟩ := seekOn_spec hall.sound (hself'.chain hchain)
          (hself'.noBad hchain hbad) h.stands h.orgClust (hready.relinked hall) (Nat.pos_of_ne_zero hzero) (by omega)
          (fun hwrite => by have := target_le ofs hwrite; omega)
        · exact .inl ⟨hno, fun h => hsick (hall.healthy h)⟩
        · exact .inr ⟨hok, cs', hself'.trans hdone.effect,
            fun a ha => (hdone.keeps a ha).trans (hall.data a ha), hdone.placed, hdone.fil, hdone.chain_eq,
            hdone.stop⟩
    generalize (if fp.target ofs = 0 then (true, { fp with fptr := 0, csect := 1 }, t)
      else fp.seekOn vol fs t (fp.target ofs)) = r at hsought ⊢
    obtain ⟨hno, hsick⟩ | ⟨hok, cs', hdone⟩ := hsought
    · rw [if_pos hno]
      exact .inl ⟨.inr rfl, hsick⟩
    · rw [if_neg (by rw [hok]; exact Bool.noConfusion)]
      exact .inr ⟨rfl, cs', hdone.gone h (target_lt hlt hofs)⟩

end Fil

end NoDiskEmu.Ff
