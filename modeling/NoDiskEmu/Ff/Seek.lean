import NoDiskEmu.Ff.Write

/-! Where `f_lseek` leaves a file. It goes by the byte in front of the position, so that it takes a file that
stands in front of a cluster for one in the cluster before. -/

namespace NoDiskEmu.Ff

open Library.Chain Library.WriteBack Fat

namespace Fil

open NoDiskEmu.Ff.Disk

/-- The file stands at the start of its cluster, which is not the first one. -/
def Ahead (v : Volume) (fp : Fil) : Prop := 0 < fp.fptr ∧ fp.csect = v.csize + 1

variable {vol : ℕ → Volume} {fs : ℕ} {cs : List ℕ} {s : Disk} {fp : Fil} {ofs : ℕ}

section Arithmetic

variable {v : Volume}

theorem div_cluster (n : ℕ) : n / (v.csize * 512) = n / 512 / v.csize := by
  rw [Nat.mul_comm, Nat.div_div_eq_div_mul]

theorem div_eq {n k r : ℕ} (h : n / 512 = k * v.csize + r) (hr : r < v.csize) : n / (v.csize * 512) = k := by
  rw [div_cluster, h, Nat.add_comm, Nat.add_mul_div_right _ _ v.csize_pos, Nat.div_eq_of_lt hr, Nat.zero_add]

theorem mul_cluster (k : ℕ) : k * (v.csize * 512) = 512 * (k * v.csize) := by
  rw [← Nat.mul_assoc, Nat.mul_comm]

/-- The cluster of the byte in front of the position. -/
theorem Placed.cluster (h : fp.Placed v cs) (hpos : 0 < fp.fptr) (hahead : ¬fp.Ahead v) :
    ∃ k, cs[k]? = some fp.currClust ∧ (fp.fptr - 1) / (v.csize * 512) = k ∧ 512 * (k * v.csize) < fp.fptr ∧
      fp.fptr ≤ 512 * ((k + 1) * v.csize) := by
  obtain ⟨hzero, -⟩ | ⟨-, k, c, r, hk, hlow, hptr, hr, hclust, hcsect, -⟩ := h
  · omega
  · have hr0 : r ≠ 0 := fun h => hahead ⟨hpos, by omega⟩
    have hdiv : (fp.fptr - 1) / 512 = k * v.csize + (r - 1) := by omega
    refine ⟨k, hclust ▸ hk, div_eq hdiv (by omega), by omega, ?_⟩
    rw [Nat.add_mul, Nat.one_mul]
    omega

/-- The sector fields for a position in a cluster, or behind it. -/
theorem setSector_placed {c k : ℕ} (hc : 2 ≤ c ∧ c < (vol fs).maxClust) (hk : cs[k]? = some c)
    (hclust : fp.currClust = c) (hptr : fp.fptr = 512 * (k * (vol fs).csize) + ofs)
    (hofs : ofs ≤ (vol fs).csize * 512) (hpos : 0 < fp.fptr) : (fp.setSector vol fs ofs).Placed (vol fs) cs := by
  have hle := (vol fs).csize_le
  have hsect : (vol fs).clust2sect c + (vol fs).csize < 2 ^ 32 ∧ 0 < (vol fs).clust2sect c := by
    have hadd := clust2sect_add (v := vol fs) (q := 0) hc
    have hlast := Nat.mul_le_mul_right (vol fs).csize (show c - 2 + 1 ≤ (vol fs).maxClust by omega)
    rw [Nat.add_mul, Nat.one_mul] at hlast
    have hlt := (vol fs).sectors_lt
    have hbase := (vol fs).fatbase_pos
    have hfats := (vol fs).fats_le
    omega
  rw [setSector, hclust]
  generalize hq : (ofs + (2 ^ 32 - 1)) % 2 ^ 32 / 512 % 256 = q
  refine .inr ⟨hpos, k, c, (ofs + 511) / 512, hk, ?_, ?_, ?_, rfl, ?_, ?_⟩
  · show 512 * _ ≤ fp.fptr
    omega
  · show (fp.fptr + 511) / 512 = _
    omega
  · omega
  · show ((vol fs).csize + 256 - q) % 256 + (ofs + 511) / 512 = _
    omega
  · show ((vol fs).clust2sect c + q + if 128 ≤ q then 2 ^ 32 - 256 else 0) % 2 ^ 32 + 1 = _
    by_cases hzero : ofs = 0
    · subst hzero
      rw [if_pos (by omega)]
      omega
    · rw [if_neg (by omega)]
      omega

end Arithmetic

/-- What the loop of `f_lseek` comes to when it goes on from the start of cluster `k`, `ofs` bytes in front of
the position: the cluster of the position, or the last one that the full volume allows. -/
structure SeekDone (vol : ℕ → Volume) (fs : ℕ) (cs cs' : List ℕ) (target ofs : ℕ) (fp fp' : Fil) (s s' : Disk) :
    Prop where
  effect : Effect vol fs cs s cs' s'
  keeps : KeepsData vol s s'
  pos : 0 < ofs
  le : ofs ≤ (vol fs).csize * 512
  cluster : ∃ k c, cs'[k]? = some c ∧ fp' = { fp with fptr := 512 * (k * (vol fs).csize), currClust := c }
  stop : fp'.fptr + ofs = target ∨ fp'.fptr + ofs < target ∧ fp'.fptr + ofs = 512 * (cs'.length * (vol fs).csize) ∧
    Full vol fs s' ∧ fp.write = true

theorem seekLoop_spec (fuel : ℕ) {clust k : ℕ} (hs : s.Sound vol) (hchain : IsChain (s.link vol) (cells fs cs))
    (hbad : s.NoBad vol fs) (hk : cs[k]? = some clust) (hptr : fp.fptr = 512 * (k * (vol fs).csize))
    (hpos : 0 < ofs) (hfuel : ofs < fuel)
    (hread : fp.write = false → fp.fptr + ofs ≤ 512 * (cs.length * (vol fs).csize)) :
    let r := seekLoop vol fs fuel clust ofs fp s
    (r.1 = false ∧ ¬s.Healthy vol) ∨
      (r.1 = true ∧ ∃ cs', SeekDone vol fs cs cs' (fp.fptr + ofs) r.2.1 fp r.2.2.1 s r.2.2.2) := by
  induction fuel generalizing fp s cs clust k ofs with
  | zero => omega
  | succ fuel ih =>
    have hcsize := (vol fs).csize_pos
    rw [seekLoop]
    dsimp only
    by_cases hle : ofs ≤ (vol fs).csize * 512
    · rw [if_pos hle]
      refine .inr ⟨rfl, cs, .refl hs, fun _ _ => rfl, hpos, hle, ⟨k, clust, hk, by rw [← hptr]⟩, .inl rfl⟩
    rw [if_neg hle]
    have hlt : k < cs.length := (List.getElem?_eq_some_iff.mp hk).1
    have hcell : (cells fs cs)[k]? = some (fs, clust) := by rw [List.getElem?_map, hk]; rfl
    -- the loop goes on from the next cluster, which is in the chain then
    have hnext : ∀ (cs₁ : List ℕ) (d : ℕ) (t : Disk), cs₁[k + 1]? = some d → Effect vol fs cs s cs₁ t →
        KeepsData vol s t → 2 ≤ d ∧ d < (vol fs).maxClust →
        let fp₁ : Fil := { fp with currClust := clust }
        let r := if d = 0 then (true, (vol fs).csize * 512, fp₁, t)
          else if d < 2 ∨ (vol fs).maxClust ≤ d then (false, ofs, fp₁, t)
          else seekLoop vol fs fuel d (ofs - (vol fs).csize * 512) (fp₁.advance ((vol fs).csize * 512)) t
        (r.1 = false ∧ ¬s.Healthy vol) ∨
          (r.1 = true ∧ ∃ cs', SeekDone vol fs cs cs' (fp.fptr + ofs) r.2.1 fp r.2.2.1 s r.2.2.2) := by
      intro cs₁ d t hd heffect hkeep hrange
      dsimp only
      rw [if_neg (by omega), if_neg (by omega)]
      have hprefix := heffect.isPrefix.length_le
      have hmul := Nat.mul_le_mul_right (vol fs).csize hprefix
      have hstart : fp.fptr + (vol fs).csize * 512 = 512 * ((k + 1) * (vol fs).csize) := by
        rw [hptr, Nat.add_mul, Nat.one_mul]
        omega
      have htarget : fp.fptr + (vol fs).csize * 512 + (ofs - (vol fs).csize * 512) = fp.fptr + ofs := by omega
      obtain ⟨hno, hsick⟩ | ⟨hok, cs', hdone⟩ := @ih _ _ (({ fp with currClust := clust } : Fil).advance ((vol fs).csize * 512))
        (ofs - (vol fs).csize * 512) _ _ (heffect.sound hchain) (heffect.chain hchain) (heffect.noBad hchain hbad) hd hstart (by omega) (by omega)
        (fun h => by
          have := hread h
          show fp.fptr + (vol fs).csize * 512 + (ofs - (vol fs).csize * 512) ≤ _
          omega)
      · exact .inl ⟨hno, fun h => hsick (heffect.healthy h)⟩
      · refine .inr ⟨hok, cs', heffect.trans hdone.effect, fun a ha => (hdone.keeps a ha).trans (hkeep a ha), hdone.pos,
          hdone.le, ?_, ?_⟩
        · obtain ⟨k', c', hk', hfp⟩ := hdone.cluster
          exact ⟨k', c', hk', hfp⟩
        · have hstop := hdone.stop
          rw [show (({ fp with currClust := clust } : Fil).advance ((vol fs).csize * 512)).fptr +
            (ofs - (vol fs).csize * 512) = fp.fptr + ofs from htarget] at hstop
          exact hstop
    obtain ⟨d, hd, hlink⟩ | ⟨hlength, hlast, hlink⟩ := hchain.link hcell
    · obtain ⟨d, hd', rfl⟩ : ∃ e, cs[k + 1]? = some e ∧ (fs, e) = d := by
        rw [List.getElem?_map, Option.map_eq_some_iff] at hd
        exact hd
      have hrange := cluster_range hchain (List.mem_of_getElem? hd')
      by_cases hwrite : fp.write = true
      · rw [if_pos hwrite]
        obtain ⟨hone, hsick⟩ | ⟨hc, hrelinked⟩ := createChain_next hs hlink
        · rw [if_neg (by omega), if_pos (by omega)]
          exact .inl ⟨rfl, hsick⟩
        · rw [hc]
          exact hnext cs d _ hd' ((Effect.refl hs).quiet hrelinked) hrelinked.data hrange
      · rw [if_neg hwrite]
        obtain ⟨hone, hsick⟩ | ⟨hentry, hone, hget⟩ := getCluster_link hs fs clust
        · rw [if_neg (by omega), if_pos (by omega)]
          exact .inl ⟨rfl, hsick (by rw [hlink]; intro h; cases h)⟩
        · rw [hlink, Volume.linkOf] at hentry
          split_ifs at hentry
          have hc : (s.getCluster vol fs clust).1 = d := by
            injection hentry with h
            injection h with _ h
            exact h.symm
          rw [hc]
          exact hnext cs d _ hd' ((Effect.refl hs).quiet hget) hget.data hrange
    · rw [List.length_map] at hlength
      have hend : fp.fptr + (vol fs).csize * 512 = 512 * (cs.length * (vol fs).csize) := by
        rw [hptr, hlength, Nat.add_mul, Nat.one_mul]
        omega
      by_cases hwrite : ¬fp.write = true
      · have := hread (Bool.eq_false_iff.mpr hwrite)
        omega
      · have hwrite := not_not.mp hwrite
        rw [if_pos hwrite]
        have hgetLast : cs.getLastD 0 = clust := by
          rw [List.getLast?_map, Option.map_eq_some_iff] at hlast
          obtain ⟨c, hc, heq⟩ := hlast
          rw [List.getLastD_eq_getLast?, hc]
          exact congrArg Prod.snd heq
        obtain ⟨hone, hsick⟩ | ⟨hfull, hrelinked, hnone⟩ | htook := createChain_last hs fs clust fun _ => hlink
        · rw [if_neg (by omega), if_pos (by omega)]
          exact .inl ⟨rfl, hsick hbad⟩
        · rw [if_pos hfull]
          refine .inr ⟨rfl, cs, (Effect.refl hs).quiet hrelinked, hrelinked.data, Nat.mul_pos hcsize (by decide), le_rfl,
            ⟨k, clust, hk, by rw [← hptr]⟩, .inr ⟨?_, hend, fun c hc hlt => ?_, hwrite⟩⟩
          · show fp.fptr + (vol fs).csize * 512 < _
            omega
          · rw [hrelinked.link]
            exact hnone c hc hlt
        · refine hnext (cs ++ [(s.createChain vol fs clust).1]) _ _ ?_
            ((Effect.refl hs).take (by rw [hgetLast]; exact htook)) htook.data ⟨htook.low, htook.lt⟩
          rw [List.getElem?_append_right (by omega), hlength, Nat.sub_self]
          rfl

/-- The file has gone to `ofs`, or on a full volume to the end of its last cluster. -/
structure Sought (vol : ℕ → Volume) (fs : ℕ) (cs cs' : List ℕ) (ofs : ℕ) (fp fp' : Fil) (s s' : Disk) : Prop where
  effect : Effect vol fs cs s cs' s'
  keeps : KeepsData vol s s'
  placed : fp'.Placed (vol fs) cs'
  fil : ({ fp with fptr := fp'.fptr } : Fil).Extended cs' fp'
  chain_eq : fp'.fptr = 0 → cs' = cs
  stop : fp'.fptr = ofs ∨ fp'.fptr < ofs ∧ fp'.fptr = 512 * (cs'.length * (vol fs).csize) ∧ Full vol fs s' ∧
    fp.write = true

theorem headD_of_isPrefix {cs' : List ℕ} {k c : ℕ} (h : cs <+: cs') (hk : cs[k]? = some c) : cs'.headD 0 = cs.headD 0 := by
  obtain ⟨l, rfl⟩ := h
  cases cs with
  | nil => cases hk
  | cons d cs => rfl

/-- The way from the start of cluster `k`. -/
theorem seekLoop_sought {cs₁ : List ℕ} {t : Disk} {clust k : ℕ} (rest : ℕ) (fp fp₁ : Fil) (hchain : IsChain (s.link vol) (cells fs cs))
    (hbad : s.NoBad vol fs) (heffect : Effect vol fs cs s cs₁ t) (hkeep : KeepsData vol s t)
    (hk : cs₁[k]? = some clust) (hpos : 0 < rest)
    (hread : fp.write = false → 512 * (k * (vol fs).csize) + rest ≤ 512 * (cs₁.length * (vol fs).csize))
    (hfil : fp₁ = { fp with csect := 1, fptr := 512 * (k * (vol fs).csize), orgClust := cs₁.headD 0 }) :
    let l := seekLoop vol fs (rest + 1) clust rest fp₁ t
    let r := if l.1 then (true, (l.2.2.1.advance l.2.1).setSector vol fs l.2.1, l.2.2.2) else (false, l.2.2)
    (r.1 = false ∧ ¬s.Healthy vol) ∨
      (r.1 = true ∧ ∃ cs', Sought vol fs cs cs' (512 * (k * (vol fs).csize) + rest) fp r.2.1 s r.2.2) := by
  have hstart : fp₁.fptr = 512 * (k * (vol fs).csize) := by rw [hfil]
  have hwrite : fp₁.write = fp.write := by rw [hfil]
  have hseek := seekLoop_spec (rest + 1) (heffect.sound hchain) (heffect.chain hchain) (heffect.noBad hchain hbad) hk
    hstart hpos (Nat.lt_succ_self rest) (by rw [hstart, hwrite]; exact hread)
  subst hfil
  dsimp only at hseek ⊢
  obtain ⟨hno, hsick⟩ | ⟨hok, cs', hdone⟩ := hseek
  · rw [hno]
    exact .inl ⟨rfl, fun h => hsick (heffect.healthy h)⟩
  · rw [hok]
    obtain ⟨k', c, hk', hfp⟩ := hdone.cluster
    have htotal := heffect.trans hdone.effect
    have hle := hdone.le
    have hstop := hdone.stop
    have hrest := hdone.pos
    dsimp only at hfp hstop hle hrest ⊢
    rw [if_pos rfl, hfp]
    rw [hfp] at hstop
    refine .inr ⟨rfl, cs', htotal, fun a ha => (hdone.keeps a ha).trans (hkeep a ha), ?_, ?_, fun hzero => ?_, hstop⟩
    · exact setSector_placed (cluster_range (htotal.chain hchain) (List.mem_of_getElem? hk')) hk' rfl rfl hle
        (Nat.lt_of_lt_of_le hrest (Nat.le_add_left ..))
    · exact ⟨_, _, _, by rw [headD_of_isPrefix hdone.effect.isPrefix hk]; rfl⟩
    · exact absurd (Nat.eq_zero_of_add_eq_zero_left hzero) hrest.ne'

/-- The handle stands so that `f_lseek` goes to `ofs`: not in front of a cluster, and the division does not take
the start of the file for its 4 GB end. A file without a cluster can get one. -/
structure Seekable (vol : ℕ → Volume) (fs ofs : ℕ) (fp : Fil) (s : Disk) : Prop where
  ahead : ¬fp.Ahead (vol fs)
  wrap : fp.fptr = 0 → ofs / ((vol fs).csize * 512) ≠ (2 ^ 32 - 1) / ((vol fs).csize * 512)
  room : fp.orgClust = 0 → ¬Full vol fs s

theorem seekOn_spec (hs : s.Sound vol) (hchain : IsChain (s.link vol) (cells fs cs)) (hbad : s.NoBad vol fs)
    (hplaced : fp.Placed (vol fs) cs ∨ fp.Spent (vol fs) cs) (horg : fp.orgClust = cs.headD 0)
    (hseek : fp.Seekable vol fs ofs s) (hpos : 0 < ofs) (hptr : fp.fptr < 2 ^ 32)
    (hread : fp.write = false → ofs ≤ 512 * (cs.length * (vol fs).csize)) :
    let r := fp.seekOn vol fs s ofs
    (r.1 = false ∧ ¬s.Healthy vol) ∨ (r.1 = true ∧ ∃ cs', Sought vol fs cs cs' ofs fp r.2.1 s r.2.2) := by
  have hbytes : 0 < (vol fs).csize * 512 := Nat.mul_pos (vol fs).csize_pos (by decide)
  -- a spent handle keeps its cluster
  have hcluster : 0 < fp.fptr → ∃ k, cs[k]? = some fp.currClust ∧ (fp.fptr - 1) / ((vol fs).csize * 512) = k ∧
      512 * (k * (vol fs).csize) < fp.fptr ∧ fp.fptr ≤ 512 * ((k + 1) * (vol fs).csize) := by
    intro hpos
    obtain hplaced | ⟨-, hplaced, -⟩ := hplaced
    · exact hplaced.cluster hpos hseek.ahead
    · refine hplaced.cluster hpos fun h => ?_
      have := h.2
      have := (vol fs).csize_pos
      dsimp only at *
      omega
  have hmod : 0 < fp.fptr → (fp.fptr + (2 ^ 32 - 1)) % 2 ^ 32 = fp.fptr - 1 := by omega
  rw [seekOn]
  dsimp only
  by_cases hsame : ofs / ((vol fs).csize * 512) = (fp.fptr + (2 ^ 32 - 1)) % 2 ^ 32 / ((vol fs).csize * 512)
  · have hzero : 0 < fp.fptr := by
      refine Nat.pos_of_ne_zero fun h => hseek.wrap h ?_
      rwa [h, Nat.zero_add, Nat.mod_eq_of_lt (by decide)] at hsame
    obtain ⟨k, hk, hdiv, -⟩ := hcluster hzero
    rw [hmod hzero, hdiv] at hsame
    rw [if_pos (by rw [hmod hzero, hdiv]; exact hsame), hsame]
    have hlow := Nat.div_mul_le_self ofs ((vol fs).csize * 512)
    have hhigh := Nat.mod_lt ofs hbytes
    have hadd := Nat.div_add_mod ofs ((vol fs).csize * 512)
    rw [hsame] at hlow hadd
    rw [Nat.mul_comm] at hadd
    rw [mul_cluster] at hlow hadd ⊢
    refine .inr ⟨rfl, cs, .refl hs, fun _ _ => rfl, ?_, ⟨_, _, _, by rw [← horg]; rfl⟩, fun _ => rfl, .inl rfl⟩
    refine setSector_placed (cluster_range hchain (List.mem_of_getElem? hk)) hk rfl ?_ ?_ hpos
    · show ofs = 512 * (k * (vol fs).csize) + (ofs - 512 * (k * (vol fs).csize))
      omega
    · omega
  rw [if_neg hsame]
  by_cases hinside : fp.fptr ≠ 0 ∧ fp.fptr < ofs
  · obtain ⟨k, hk, hdiv, hlow, hhigh⟩ := hcluster (Nat.pos_of_ne_zero hinside.1)
    have hne : ¬fp.currClust = 0 := by
      have := cluster_range hchain (List.mem_of_getElem? hk)
      omega
    simp only [if_pos hinside, hdiv, mul_cluster, if_neg hne, if_neg (fun h : _ ∧ _ => hne h.1)]
    have h := seekLoop_sought (ofs - 512 * (k * (vol fs).csize)) fp
      { fp with csect := 1, fptr := 512 * (k * (vol fs).csize) } hchain hbad (.refl hs) (fun _ _ => rfl) hk (by omega)
      (fun h => by have := hread h; omega) (by rw [← horg])
    rwa [Nat.add_sub_cancel' (by omega)] at h
  · simp only [if_neg hinside, Nat.sub_zero]
    cases cs with
    | nil =>
      have horg0 : fp.orgClust = 0 := horg
      rw [if_pos horg0, if_pos horg0]
      obtain ⟨hone, hsick⟩ | ⟨hfull, hrelinked, hnone⟩ | htook := createChain_last hs fs 0 fun hne => absurd rfl hne
      · rw [if_pos ⟨horg0, hone⟩]
        exact .inl ⟨rfl, hsick hbad⟩
      · exact absurd hnone (hseek.room horg0)
      · have hlow := htook.low
        rw [if_neg (by omega), if_neg (by omega)]
        have h := seekLoop_sought ofs fp { fp with csect := 1, fptr := 0, orgClust := (s.createChain vol fs 0).1 }
          hchain hbad (Effect.take (.refl hs) htook) htook.data (k := 0) rfl hpos
          (fun h => absurd (hread h) (by rw [List.length_nil, Nat.zero_mul]; omega)) (by rw [Nat.zero_mul]; rfl)
        rwa [Nat.zero_mul, Nat.mul_zero, Nat.zero_add] at h
    | cons c cs =>
      have horgc : fp.orgClust = c := horg
      have hrange := cluster_range hchain (c := c) List.mem_cons_self
      have hne : ¬fp.orgClust = 0 := by omega
      simp only [if_neg hne, if_neg (fun h : _ ∧ _ => hne h.1)]
      have hfirst : (c :: cs)[0]? = some fp.orgClust := by
        rw [horgc]
        rfl
      have h := seekLoop_sought ofs fp { fp with csect := 1, fptr := 0 } hchain hbad (.refl hs) (fun _ _ => rfl) hfirst
        hpos (fun h => by have := hread h; omega) (by rw [← horg, Nat.zero_mul])
      rwa [Nat.zero_mul, Nat.mul_zero, Nat.zero_add] at h

end Fil

end NoDiskEmu.Ff
