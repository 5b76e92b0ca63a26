import NoDiskEmu.Ff.Effect

/-! The contents of a file in the sectors of its clusters, and how `f_read` gets them. -/

namespace NoDiskEmu.Ff

open Library.Chain Library.WriteBack Fat

/-- The number of sector `n` of a file on its volume. -/
def Volume.sector (v : Volume) (cs : List ℕ) (n : ℕ) : ℕ := v.clust2sect (cs.getD (n / v.csize) 0) + n % v.csize

/-- A byte of a file. -/
def Disk.byte (vol : ℕ → Volume) (fs : ℕ) (cs : List ℕ) (s : Disk) (o : ℕ) : UInt8 :=
  s.buf.view (fs, (vol fs).sector cs (o / 512)) (o % 512)

section Sectors

variable {v : Volume} {cs cs' : List ℕ} {k c q n : ℕ}

theorem sector_eq (hk : cs[k]? = some c) (hq : q < v.csize) : v.sector cs (k * v.csize + q) = v.clust2sect c + q := by
  have hquot : (k * v.csize + q) / v.csize = k := by
    rw [Nat.add_comm, Nat.add_mul_div_right _ _ v.csize_pos, Nat.div_eq_of_lt hq, Nat.zero_add]
  have hrem : (k * v.csize + q) % v.csize = q := by
    rw [Nat.add_comm, Nat.add_mul_mod_self_right, Nat.mod_eq_of_lt hq]
  rw [Volume.sector, hquot, hrem, List.getD_eq_getElem?_getD, hk]
  rfl

/-- A sector of a file is one of a cluster of its chain. -/
theorem exists_sector (hn : n < cs.length * v.csize) :
    ∃ k c q, cs[k]? = some c ∧ q < v.csize ∧ n = k * v.csize + q := by
  have hk : n / v.csize < cs.length := Nat.div_lt_of_lt_mul (by rwa [Nat.mul_comm])
  refine ⟨n / v.csize, cs[n / v.csize], n % v.csize, List.getElem?_eq_getElem hk, Nat.mod_lt _ v.csize_pos, ?_⟩
  rw [Nat.mul_comm]
  exact (Nat.div_add_mod n v.csize).symm

theorem sector_prefix (h : cs <+: cs') (hn : n < cs.length * v.csize) : v.sector cs' n = v.sector cs n := by
  obtain ⟨k, c, q, hk, hq, rfl⟩ := exists_sector hn
  obtain ⟨rest, rfl⟩ := h
  have hk' : (cs ++ rest)[k]? = some c := by
    rw [List.getElem?_append_left (List.getElem?_eq_some_iff.mp hk).1]
    exact hk
  rw [sector_eq hk hq, sector_eq hk' hq]

end Sectors

namespace Disk

variable {vol : ℕ → Volume} {fs : ℕ} {cs cs' : List ℕ} {s s' : Disk} {o : ℕ}

theorem byte_prefix (h : cs <+: cs') (ho : o < 512 * (cs.length * (vol fs).csize)) :
    s.byte vol fs cs' o = s.byte vol fs cs o := by
  rw [byte, byte, sector_prefix h (Nat.div_lt_of_lt_mul ho)]

theorem data_sector (hchain : IsChain (s.link vol) (cells fs cs)) {n : ℕ} (hn : n < cs.length * (vol fs).csize) :
    (vol fs).fatbase + (vol fs).nFats * (vol fs).sectsFat ≤ (vol fs).sector cs n := by
  obtain ⟨k, c, q, hk, hq, rfl⟩ := exists_sector hn
  rw [sector_eq hk hq]
  exact data_clust2sect (cluster_range hchain (List.mem_of_getElem? hk))

theorem Relinked.byte {t : ℕ × ℕ → Link (ℕ × ℕ)} (h : Relinked vol t s s')
    (hchain : IsChain (s.link vol) (cells fs cs)) (ho : o < 512 * (cs.length * (vol fs).csize)) :
    s'.byte vol fs cs o = s.byte vol fs cs o :=
  congrFun (h.data _ (data_sector hchain (Nat.div_lt_of_lt_mul ho))) _

end Disk

namespace Fil

open NoDiskEmu.Ff.Disk

variable {vol : ℕ → Volume} {fs : ℕ} {cs : List ℕ} {s : Disk} {fp : Fil} {btr : ℕ}

/-- The sector that a file is in is the current one, and so are those behind it in the cluster. -/
theorem Facing.sector {v : Volume} (h : fp.Facing v cs) {i : ℕ} (hi : i < fp.csect) :
    v.sector cs (fp.fptr / 512 + i) = fp.currSect + i ∧ fp.fptr / 512 + i < cs.length * v.csize := by
  obtain ⟨k, c, q, hk, hptr, hq, hclust, hcsect, hsect⟩ := h
  have hlt : k < cs.length := (List.getElem?_eq_some_iff.mp hk).1
  have := Nat.mul_le_mul_right v.csize (show k + 1 ≤ cs.length from hlt)
  rw [Nat.add_mul, Nat.one_mul] at this
  rw [hptr, Nat.add_assoc, sector_eq hk (by omega), hsect]
  omega

theorem Facing.csect_pos {v : Volume} (h : fp.Facing v cs) : 0 < fp.csect := by
  obtain ⟨k, c, q, hk, hptr, hq, hclust, hcsect, hsect⟩ := h
  omega

/-- The window is at the current sector of a file. -/
theorem Facing.move (h : fp.Facing (vol fs) cs) (hs : s.Sound vol) (hchain : IsChain (s.link vol) (cells fs cs)) :
    let m := s.moveWindow vol fs fp.currSect
    (m.1 = false ∧ ¬s.Healthy vol) ∨ (m.1 = true ∧ Relinked vol (s.link vol) s m.2 ∧
      m.2.buf.tag = (fs, (vol fs).sector cs (fp.fptr / 512)) ∧
        ∀ i, fp.fptr % 512 + i < 512 → m.2.buf.block (fp.fptr % 512 + i) = s.byte vol fs cs (fp.fptr + i)) := by
  obtain ⟨hsect, hlt⟩ := h.sector h.csect_pos
  rw [Nat.add_zero, Nat.add_zero] at hsect
  have hdata := data_sector hchain hlt
  rw [Nat.add_zero] at hdata
  obtain hno | ⟨hok, hmove, htag, -⟩ := moveWindow_link hs fs fp.currSect
  · exact .inl hno
  · have hne : fp.currSect ≠ 0 := by
      have := (vol fs).fatbase_pos
      omega
    have htag' : (s.moveWindow vol fs fp.currSect).2.buf.tag = (fs, (vol fs).sector cs (fp.fptr / 512)) := by
      rw [hsect]
      exact htag hne
    refine .inr ⟨hok, hmove, htag', fun i hi => ?_⟩
    have hquot : (fp.fptr + i) / 512 = fp.fptr / 512 := by omega
    have hrem : (fp.fptr + i) % 512 = fp.fptr % 512 + i := by omega
    rw [Disk.byte, hquot, hrem, ← hmove.data _ hdata, ← htag', Cache.view_tag]

theorem readPart_spec (hs : s.Sound vol) (hchain : IsChain (s.link vol) (cells fs cs))
    (hfacing : fp.Facing (vol fs) cs) (hclean : fp.fptr % 512 = 0 → s.buf.dirty = false) (hbtr : 0 < btr) :
    let r := fp.readPart vol fs s btr
    (r.1 = none ∧ ¬s.Healthy vol) ∨ ∃ n, 0 < n ∧ n ≤ btr ∧
      r.1 = some ((List.range n).map fun i => s.byte vol fs cs (fp.fptr + i)) ∧
        (r.2.1.advance n).Placed (vol fs) cs ∧ fp.Along r.2.1 ∧ Relinked vol (s.link vol) s r.2.2 := by
  rw [readPart]
  by_cases hdirect : fp.fptr % 512 = 0 ∧ btr / 512 ≠ 0
  · rw [if_pos hdirect]
    dsimp only
    cases hio : s.io 0 with
    | failed left => exact .inl ⟨rfl, fun h => by rw [h.calm 0] at hio; cases hio⟩
    | ok =>
      have hpos := hfacing.csect_pos
      generalize hcc : min (btr / 512) fp.csect = cc
      refine .inr ⟨cc * 512, by omega, by omega, ?_, hfacing.advance_sectors hdirect.1 (by omega) (by omega),
        ⟨_, _, _, rfl⟩, ?_⟩
      · refine congrArg some (List.map_congr_left fun i hi => ?_)
        have hi := List.mem_range.mp hi
        obtain ⟨hsect, hlt⟩ := hfacing.sector (i := i / 512) (by omega)
        have hquot : (fp.fptr + i) / 512 = fp.fptr / 512 + i / 512 := by omega
        have hrem : (fp.fptr + i) % 512 = i % 512 := by omega
        have hprimary : Primary vol (fs, (vol fs).sector cs (fp.fptr / 512 + i / 512)) :=
          primary_data (data_sector hchain hlt)
        rw [Disk.byte, hquot, hrem, hs.view_clean (hclean hdirect.1) hprimary, hsect]
      · have hsame : Same vol s s.nextIo := ⟨fun _ _ => rfl, rfl, rfl, rfl⟩
        exact hsame.relinked hs fun h => ⟨h.calm.nextIo, h.mirrored⟩
  · rw [if_neg hdirect]
    dsimp only
    obtain ⟨hno, hsick⟩ | ⟨hok, hmove, -, hblock⟩ := hfacing.move hs hchain
    · rw [if_neg (by rw [hno]; exact Bool.noConfusion)]
      exact .inl ⟨rfl, hsick⟩
    · rw [if_pos hok]
      refine .inr ⟨min (512 - fp.fptr % 512) btr, by omega, by omega, ?_, hfacing.advance (by omega) (by omega),
        .refl fp, hmove⟩
      refine congrArg some (List.map_congr_left fun i hi => hblock i ?_)
      have hi := List.mem_range.mp hi
      omega

theorem readLoop_spec (fuel : ℕ) (hs : s.Sound vol) (hchain : IsChain (s.link vol) (cells fs cs))
    (hplaced : fp.Placed (vol fs) cs) (horg : fp.orgClust = cs.headD 0) (hfuel : btr ≤ fuel)
    (hroom : fp.fptr + btr ≤ 512 * (cs.length * (vol fs).csize)) :
    let r := fp.readLoop vol fs fuel btr s
    (r.1 = false ∧ ¬s.Healthy vol) ∨ (r.1 = true ∧
      r.2.1 = (List.range btr).map (fun i => s.byte vol fs cs (fp.fptr + i)) ∧ r.2.2.1.Placed (vol fs) cs ∧
        (fp.advance btr).Along r.2.2.1 ∧ Relinked vol (s.link vol) s r.2.2.2) := by
  induction fuel generalizing fp s btr with
  | zero =>
    obtain rfl : btr = 0 := by omega
    exact .inr ⟨rfl, rfl, hplaced, .refl fp, .refl hs⟩
  | succ fuel ih =>
    rw [readLoop]
    by_cases hbtr : btr = 0
    · subst hbtr
      rw [if_pos rfl]
      exact .inr ⟨rfl, rfl, hplaced, .refl fp, .refl hs⟩
    rw [if_neg hbtr]
    dsimp only
    -- on the sector boundary or not, the file is in its current sector then
    have hsector : let b := if fp.fptr % 512 = 0 then fp.readSector vol fs s else (true, fp, s)
        (b.1 = false ∧ ¬s.Healthy vol) ∨ (b.1 = true ∧ b.2.1.Facing (vol fs) cs ∧ fp.Along b.2.1 ∧
          Relinked vol (s.link vol) s b.2.2 ∧ (b.2.1.fptr % 512 = 0 → b.2.2.buf.dirty = false)) := by
      dsimp only
      by_cases hmod : fp.fptr % 512 = 0
      · rw [if_pos hmod]
        obtain hno | ⟨hok, hfacing, halong, hmove, hclean⟩ :=
          readSector_spec hs hchain hplaced hmod horg (by omega)
        · exact .inl hno
        · exact .inr ⟨hok, hfacing, halong, hmove, fun _ => hclean⟩
      · rw [if_neg hmod]
        exact .inr ⟨rfl, hplaced.facing hmod, .refl fp, .refl hs, fun h => absurd h hmod⟩
    generalize (if fp.fptr % 512 = 0 then fp.readSector vol fs s else (true, fp, s)) = b at hsector ⊢
    obtain ⟨hno, hsick⟩ | ⟨hok, hfacing, halong, hmove, hclean⟩ := hsector
    · rw [if_neg (by rw [hno]; exact Bool.noConfusion)]
      exact .inl ⟨rfl, hsick⟩
    rw [if_pos hok]
    have hptr := halong.fptr
    have hchain' : IsChain (b.2.2.link vol) (cells fs cs) := by
      rw [hmove.link]
      exact hchain
    obtain ⟨hnone, hsick⟩ | ⟨n, hpos, hle, hsome, hplaced', halong', hpart⟩ :=
      readPart_spec hmove.sound hchain' hfacing hclean (Nat.pos_of_ne_zero hbtr)
    · rw [hnone]
      exact .inl ⟨rfl, fun h => hsick (hmove.healthy h)⟩
    rw [hsome]
    dsimp only
    rw [List.length_map, List.length_range]
    have halong2 := halong.trans halong'
    generalize b.2.1.readPart vol fs b.2.2 btr = p at hplaced' halong2 hpart ⊢
    have hptr' := halong2.fptr
    have horg' : p.2.1.orgClust = cs.headD 0 := halong2.orgClust.trans horg
    have hall : Relinked vol (s.link vol) s p.2.2 := by
      have := hmove.trans hpart
      rwa [hmove.link] at this
    have hchain'' : IsChain (p.2.2.link vol) (cells fs cs) := by
      rw [hall.link]
      exact hchain
    obtain ⟨hno, hsick⟩ | ⟨hok', hdata, hplaced'', halong'', hrest⟩ :=
      @ih _ (p.2.1.advance n) (btr - n) hall.sound hchain'' hplaced' horg' (by omega)
        (by rw [advance_fptr]; omega)
    · exact .inl ⟨hno, fun h => hsick (hall.healthy h)⟩
    · refine .inr ⟨hok', ?_, hplaced'', ?_, ?_⟩
      · rw [hdata, ← Nat.add_sub_cancel' hle, List.range_add, List.map_append, List.map_map,
          Nat.add_sub_cancel_left, advance_fptr, hptr', hptr]
        congr 1
        · refine List.map_congr_left fun i hi => ?_
          exact hmove.byte hchain (by have := List.mem_range.mp hi; omega)
        · refine List.map_congr_left fun i hi => ?_
          rw [hall.byte hchain (by have := List.mem_range.mp hi; omega), Function.comp_apply, Nat.add_assoc]
      · have hadvance := halong2.advance n |>.advance (btr - n)
        rw [advance_advance, Nat.add_sub_cancel' hle] at hadvance
        exact hadvance.trans halong''
      · rw [hall.link] at hrest
        exact hall.trans hrest

end Fil

end NoDiskEmu.Ff
