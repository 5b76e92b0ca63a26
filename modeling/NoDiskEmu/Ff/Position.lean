import NoDiskEmu.Ff.File

/-! Where an open file stands in its chain: its cluster, its sector and how many sectors of the cluster are
left. -/

namespace NoDiskEmu.Ff

open Library.Chain

namespace Fil

/-- The file stands inside the sector that it holds as the current one. -/
def Facing (v : Volume) (cs : List ℕ) (fp : Fil) : Prop :=
  ∃ k c q, cs[k]? = some c ∧ fp.fptr / 512 = k * v.csize + q ∧ q < v.csize ∧ fp.currClust = c ∧
    fp.csect + q = v.csize ∧ fp.currSect = v.clust2sect c + q

/-- The file is at its start, or the byte in front of its position is in the sector that it holds as the
current one; in front of a cluster that may be the one before its first sector. -/
def Placed (v : Volume) (cs : List ℕ) (fp : Fil) : Prop :=
  fp.fptr = 0 ∧ fp.csect = 1 ∨
    0 < fp.fptr ∧ ∃ k c r, cs[k]? = some c ∧ 512 * (k * v.csize) ≤ fp.fptr ∧
      (fp.fptr + 511) / 512 = k * v.csize + r ∧ r ≤ v.csize ∧ fp.currClust = c ∧
        fp.csect + r = v.csize + 1 ∧ fp.currSect + 1 = v.clust2sect c + r

/-- Only where the file stands differs. -/
def Along (fp fp' : Fil) : Prop :=
  ∃ csect currClust currSect, fp' = { fp with csect, currClust, currSect }

variable {v : Volume} {cs : List ℕ} {fp fp' : Fil} {n : ℕ}

theorem Along.refl (fp : Fil) : fp.Along fp := ⟨_, _, _, rfl⟩

theorem Along.trans {fp'' : Fil} (h : fp.Along fp') (h' : fp'.Along fp'') : fp.Along fp'' := by
  obtain ⟨_, _, _, rfl⟩ := h
  obtain ⟨_, _, _, rfl⟩ := h'
  exact ⟨_, _, _, rfl⟩

theorem Along.advance (h : fp.Along fp') (n : ℕ) : (fp.advance n).Along (fp'.advance n) := by
  obtain ⟨_, _, _, rfl⟩ := h
  exact ⟨_, _, _, rfl⟩

theorem advance_advance (m : ℕ) : (fp.advance n).advance m = fp.advance (n + m) := by
  simp only [Fil.advance, Nat.add_assoc]

theorem Along.fptr (h : fp.Along fp') : fp'.fptr = fp.fptr := by
  obtain ⟨_, _, _, rfl⟩ := h
  rfl

theorem Along.orgClust (h : fp.Along fp') : fp'.orgClust = fp.orgClust := by
  obtain ⟨_, _, _, rfl⟩ := h
  rfl

theorem Placed.facing (h : fp.Placed v cs) (hmod : fp.fptr % 512 ≠ 0) : fp.Facing v cs := by
  obtain ⟨hzero, -⟩ | ⟨-, k, c, r, hk, hlow, hptr, hr, hclust, hcsect, hsect⟩ := h
  · rw [hzero] at hmod
    exact absurd rfl hmod
  · refine ⟨k, c, r - 1, hk, ?_, ?_, hclust, ?_, ?_⟩ <;> omega

theorem Facing.room (h : fp.Facing v cs) : fp.fptr < 512 * (cs.length * v.csize) := by
  obtain ⟨k, c, q, hk, hptr, hq, -⟩ := h
  have hlt : k < cs.length := (List.getElem?_eq_some_iff.mp hk).1
  have := Nat.mul_le_mul_right v.csize (show k + 1 ≤ cs.length from hlt)
  rw [Nat.succ_mul] at this
  omega

/-- After a transfer inside the current sector. -/
theorem Facing.advance (h : fp.Facing v cs) (hn : 0 < n) (hsector : fp.fptr % 512 + n ≤ 512) :
    (fp.advance n).Placed v cs := by
  obtain ⟨k, c, q, hk, hptr, hq, hclust, hcsect, hsect⟩ := h
  simp only [Placed, advance_fptr, advance_csect, advance_currSect]
  exact .inr ⟨by omega, k, c, q + 1, hk, by omega, by omega, by omega, hclust, by omega, by omega⟩

/-- After a transfer of whole sectors of the current cluster. -/
theorem Facing.advance_sectors (h : fp.Facing v cs) (hmod : fp.fptr % 512 = 0) (hn : 0 < n) (hle : n ≤ fp.csect) :
    ({ fp with csect := fp.csect - (n - 1), currSect := fp.currSect + (n - 1) } : Fil).advance (n * 512) |>.Placed
      v cs := by
  obtain ⟨k, c, q, hk, hptr, hq, hclust, hcsect, hsect⟩ := h
  simp only [Placed, advance_fptr, advance_csect, advance_currSect]
  exact .inr ⟨by omega, k, c, q + n, hk, by omega, by omega, by omega, hclust, by omega, by omega⟩

end Fil

namespace Disk

variable {vol : ℕ → Volume} {s s' : Disk} {fs : ℕ}

theorem Same.relinked (h : Same vol s s') (hs : s'.Sound vol) (hhealthy : s.Healthy vol → s'.Healthy vol) :
    Relinked vol (s.link vol) s s' where
  sound := hs
  healthy := hhealthy
  link := by
    funext ⟨v, c⟩
    rw [link_congr (b := s.fatByte vol v) fun i hi => ?_, link]
    exact congrFun (h.view _ (primary_fat (Nat.div_lt_of_lt_mul hi))) _
  data a ha := h.view a (primary_data ha)
  lastClust := h.lastClust
  freeClust := h.freeClust
  fsiFlag := h.fsiFlag

/-- `move_window`, for what the FATs say. -/
theorem moveWindow_link (hs : s.Sound vol) (fs sect : ℕ) :
    let r := s.moveWindow vol fs sect
    (r.1 = false ∧ ¬s.Healthy vol) ∨
      (r.1 = true ∧ Relinked vol (s.link vol) s r.2 ∧ (sect ≠ 0 → r.2.buf.tag = (fs, sect)) ∧
        (sect = 0 → r.2.buf.dirty = false)) := by
  have hcalm := fun h : s.Calm => moveWindow_calm hs h fs sect
  cases hok : (s.moveWindow vol fs sect).1 with
  | false => exact .inl ⟨hok, fun h => Bool.noConfusion (hok.symm.trans (hcalm h.calm).1)⟩
  | true =>
    obtain ⟨hsame, hsound, htag, hclean⟩ := moveWindow_spec hs hok
    exact .inr ⟨hok, hsame.relinked hsound fun h => ⟨(hcalm h.calm).2.1, (hcalm h.calm).2.2 h.mirrored⟩, htag, hclean⟩

/-- The cluster of a chain is one of its volume. -/
theorem cluster_range {cs : List ℕ} {c : ℕ} (hchain : IsChain (s.link vol) (cs.map (Prod.mk fs))) (hc : c ∈ cs) :
    2 ≤ c ∧ c < (vol fs).maxClust := by
  have htaken := hchain.taken (List.mem_map_of_mem hc)
  by_contra hout
  rw [Disk.link, if_neg hout] at htaken
  obtain ⟨a, h⟩ | h := htaken <;> cases h

end Disk

namespace Fil

open NoDiskEmu.Ff.Disk

variable {vol : ℕ → Volume} {s : Disk} {fs : ℕ} {cs : List ℕ} {fp : Fil}

theorem moveTo_spec (hs : s.Sound vol) (fp : Fil) (fs sect : ℕ) :
    let r := fp.moveTo vol fs s sect
    (r.1 = false ∧ ¬s.Healthy vol) ∨
      (r.1 = true ∧ r.2.1 = { fp with currSect := sect } ∧ Relinked vol (s.link vol) s r.2.2 ∧
        r.2.2.buf.dirty = false) := by
  rw [moveTo]
  obtain ⟨hno, hsick⟩ | ⟨hok, hmove, -, hclean⟩ := moveWindow_link hs fs 0
  · dsimp only
    rw [if_neg (by rw [hno]; exact Bool.noConfusion)]
    exact .inl ⟨rfl, hsick⟩
  · dsimp only
    rw [if_pos hok]
    exact .inr ⟨rfl, rfl, hmove, hclean rfl⟩

/-- The next cluster of the chain of a file that is at a sector boundary, or its sector in this one. -/
theorem Placed.boundary {v : Volume} (h : fp.Placed v cs) (hmod : fp.fptr % 512 = 0) :
    (fp.decSect.csect ≠ 0 ∧ ({ fp.decSect with currSect := fp.currSect + 1 } : Fil).Facing v cs) ∨
      (fp.decSect.csect = 0 ∧ ((fp.fptr = 0) ∨
        0 < fp.fptr ∧ ∃ k, cs[k]? = some fp.currClust ∧ fp.fptr = 512 * ((k + 1) * v.csize))) := by
  have hle := v.csize_le
  obtain ⟨hzero, hcsect⟩ | ⟨hpos, k, c, r, hk, hlow, hptr, hr, hclust, hcsect, hsect⟩ := h
  · refine .inr ⟨?_, .inl hzero⟩
    rw [decSect, hcsect]
  · have hdec : fp.decSect.csect = v.csize - r := by
      rw [decSect]
      dsimp only
      omega
    by_cases hend : r = v.csize
    · refine .inr ⟨by omega, .inr ⟨hpos, k, hclust ▸ hk, ?_⟩⟩
      rw [Nat.add_mul, Nat.one_mul]
      omega
    · refine .inl ⟨by omega, k, c, r, hk, ?_, ?_, hclust, ?_, hsect⟩
      · show fp.fptr / 512 = _
        omega
      · omega
      · show fp.decSect.csect + r = _
        omega

/-- The first sector of a cluster. -/
theorem facing_enter {v : Volume} {fp' : Fil} (fp : Fil) {k c : ℕ} (hk : cs[k]? = some c) (hptr : fp.fptr = 512 * (k * v.csize))
    (h : fp' = { fp.enter v c with currSect := v.clust2sect c }) : fp'.Facing v cs := by
  subst h
  have := v.csize_pos
  refine ⟨k, c, 0, hk, ?_, this, rfl, rfl, rfl⟩
  show fp.fptr / 512 = _
  omega

theorem readSector_spec (hs : s.Sound vol) (hchain : IsChain (s.link vol) (cs.map (Prod.mk fs)))
    (hplaced : fp.Placed (vol fs) cs) (hmod : fp.fptr % 512 = 0) (horg : fp.orgClust = cs.headD 0)
    (hlt : fp.fptr < 512 * (cs.length * (vol fs).csize)) :
    let r := fp.readSector vol fs s
    (r.1 = false ∧ ¬s.Healthy vol) ∨
      (r.1 = true ∧ r.2.1.Facing (vol fs) cs ∧ fp.Along r.2.1 ∧ Relinked vol (s.link vol) s r.2.2 ∧
        r.2.2.buf.dirty = false) := by
  rw [readSector]
  dsimp only
  obtain ⟨hcsect, hfacing⟩ | ⟨hcsect, hcluster⟩ := hplaced.boundary hmod
  · rw [if_pos hcsect]
    obtain hno | ⟨hok, hfp, hmove, hclean⟩ := moveTo_spec hs fp.decSect fs (fp.decSect.currSect + 1)
    · exact .inl hno
    · rw [hfp]
      exact .inr ⟨hok, hfacing, ⟨_, _, _, rfl⟩, hmove, hclean⟩
  · rw [if_neg (not_not.mpr hcsect)]
    -- cluster `k` of the chain is the one to go on with
    have hnext : ∀ k c, cs[k]? = some c → fp.fptr = 512 * (k * (vol fs).csize) → ∀ t : Disk,
        Relinked vol (s.link vol) s t →
        let r := (fp.decSect.enter (vol fs) c).moveTo vol fs t ((vol fs).clust2sect c)
        (r.1 = false ∧ ¬s.Healthy vol) ∨
          (r.1 = true ∧ r.2.1.Facing (vol fs) cs ∧ fp.Along r.2.1 ∧ Relinked vol (s.link vol) s r.2.2 ∧
            r.2.2.buf.dirty = false) := by
      intro k c hk hptr t ht
      obtain ⟨hno, hsick⟩ | ⟨hok, hfp, hmove, hclean⟩ := moveTo_spec ht.sound
        (fp.decSect.enter (vol fs) c) fs ((vol fs).clust2sect c)
      · exact .inl ⟨hno, fun h => hsick (ht.healthy h)⟩
      · rw [ht.link] at hmove
        refine .inr ⟨hok, facing_enter fp.decSect hk hptr hfp, ?_, ht.trans hmove, hclean⟩
        rw [hfp]
        exact ⟨_, _, _, rfl⟩
    have hrange : ∀ k c, cs[k]? = some c → ¬(c < 2 ∨ (vol fs).maxClust ≤ c) := fun k c hk => by
      have := cluster_range hchain (List.mem_of_getElem? hk)
      omega
    obtain hzero | ⟨hpos, k, hk, hptr⟩ := hcluster
    · have hfirst : cs[0]? = some fp.orgClust := by
        cases cs with
        | nil => simp at hlt
        | cons c cs => rw [horg]; rfl
      rw [decSect_fptr, if_pos hzero, decSect_orgClust]
      dsimp only
      rw [if_neg (hrange 0 _ hfirst)]
      exact hnext 0 _ hfirst (by omega) s (.refl hs)
    · rw [decSect_fptr, if_neg (Nat.ne_of_gt hpos), decSect_currClust]
      obtain ⟨d, hd, hlink⟩ | ⟨hlength, -⟩ := hchain.link (k := k) (by rw [List.getElem?_map, hk]; rfl)
      · obtain ⟨d, hd', rfl⟩ : ∃ e, cs[k + 1]? = some e ∧ (fs, e) = d := by
          rw [List.getElem?_map, Option.map_eq_some_iff] at hd
          exact hd
        obtain ⟨hone, hsick⟩ | ⟨hentry, hone, hget⟩ := getCluster_link hs fs fp.currClust
        · rw [if_pos (by omega)]
          exact .inl ⟨rfl, hsick (by rw [hlink]; intro h; cases h)⟩
        · rw [hlink, Volume.linkOf] at hentry
          split_ifs at hentry
          have hd : (s.getCluster vol fs fp.currClust).1 = d := by
            injection hentry with h
            injection h with _ h
            exact h.symm
          rw [hd, if_neg (hrange (k + 1) d hd')]
          exact hnext (k + 1) d hd' hptr _ hget
      · rw [List.length_map] at hlength
        rw [hlength] at hlt
        omega

end Fil

end NoDiskEmu.Ff
