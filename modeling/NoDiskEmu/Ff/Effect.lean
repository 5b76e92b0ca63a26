import NoDiskEmu.Ff.Position

/-! What the calls for an open file do to the disk: they move the window, take clusters for the end of the
chain of the file, and change sectors of its clusters. -/

namespace NoDiskEmu.Ff

open Library.Chain Library.WriteBack

/-- The cells of a chain of clusters. -/
abbrev cells (fs : ℕ) (cs : List ℕ) : List (ℕ × ℕ) := cs.map (Prod.mk fs)

theorem cells_append (fs : ℕ) (cs : List ℕ) (c : ℕ) : cells fs (cs ++ [c]) = cells fs cs ++ [(fs, c)] :=
  List.map_append

/-- The disk goes from `s` to `s'` and the chain of the file from `cs` to `cs'`. -/
inductive Effect (vol : ℕ → Volume) (fs : ℕ) (cs : List ℕ) (s : Disk) : List ℕ → Disk → Prop
  | refl (hs : s.Sound vol) : Effect vol fs cs s cs s
  | quiet {cs' : List ℕ} {s' s'' : Disk} (h : Effect vol fs cs s cs' s')
      (hr : Disk.Relinked vol (s'.link vol) s' s'') : Effect vol fs cs s cs' s''
  | take {cs' : List ℕ} {s' s'' : Disk} {c : ℕ} (h : Effect vol fs cs s cs' s')
      (ht : Disk.Took vol fs (cs'.getLastD 0) c s' s'') : Effect vol fs cs s (cs' ++ [c]) s''
  | store {cs' : List ℕ} {s' : Disk} {c q : ℕ} (h : Effect vol fs cs s cs' s') (block : Sector) (hc : c ∈ cs')
      (hq : q < (vol fs).csize) (htag : s'.buf.tag = (fs, (vol fs).clust2sect c + q)) :
      Effect vol fs cs s cs' { s' with buf := s'.buf.store block }

section Sectors

variable {vol : ℕ → Volume} {v : Volume} {fs c c' q q' : ℕ}

/-- A sector of a cluster, behind the FATs. -/
theorem clust2sect_add (hc : 2 ≤ c ∧ c < v.maxClust) :
    v.clust2sect c + q = v.database + ((c - 2) * v.csize + q) := by
  rw [Volume.clust2sect, if_pos hc]
  omega

/-- Different clusters have no sector in common. -/
theorem clust2sect_inj (hc : 2 ≤ c ∧ c < v.maxClust) (hc' : 2 ≤ c' ∧ c' < v.maxClust) (hq : q < v.csize)
    (hq' : q' < v.csize) (h : v.clust2sect c + q = v.clust2sect c' + q') : c = c' ∧ q = q' := by
  rw [clust2sect_add hc, clust2sect_add hc'] at h
  have heq : (c - 2) * v.csize + q = (c' - 2) * v.csize + q' := by omega
  have hdiv : ∀ n r, r < v.csize → (n * v.csize + r) / v.csize = n := fun n r hr => by
    rw [Nat.add_comm, Nat.add_mul_div_right _ _ v.csize_pos, Nat.div_eq_of_lt hr, Nat.zero_add]
  have hquot : c - 2 = c' - 2 := calc
    c - 2 = ((c - 2) * v.csize + q) / v.csize := (hdiv _ _ hq).symm
    _ = c' - 2 := by rw [heq, hdiv _ _ hq']
  rw [hquot] at heq
  exact ⟨by omega, by omega⟩

theorem data_clust2sect (hc : 2 ≤ c ∧ c < (vol fs).maxClust) :
    (vol fs).fatbase + (vol fs).nFats * (vol fs).sectsFat ≤ (vol fs).clust2sect c + q := by
  rw [clust2sect_add hc]
  exact (vol fs).fats_le.trans (Nat.le_add_right _ _)

end Sectors

namespace Effect

variable {vol : ℕ → Volume} {fs : ℕ} {cs cs' cs'' : List ℕ} {s s' s'' : Disk} {ι : Type*} [DecidableEq ι]
  {chains : ι → List (ℕ × ℕ)} {i j : ι}

theorem trans (h : Effect vol fs cs s cs' s') (h' : Effect vol fs cs' s' cs'' s'') : Effect vol fs cs s cs'' s'' := by
  induction h' with
  | refl => exact h
  | quiet _ hr ih => exact ih.quiet hr
  | take _ ht ih => exact ih.take ht
  | store _ block hc hq htag ih => exact ih.store block hc hq htag

/-- The FATs stay as they are when a sector behind them is changed. -/
theorem link_store_data {s : Disk} {block : Sector} {a : ℕ × ℕ} (htag : s.buf.tag = a)
    (ha : (vol a.1).fatbase + (vol a.1).nFats * (vol a.1).sectsFat ≤ a.2) :
    ({ s with buf := s.buf.store block } : Disk).link vol = s.link vol := by
  funext ⟨v, d⟩
  rw [Disk.link_congr (b := s.fatByte vol v) fun i hi => ?_, Disk.link]
  have hne : (v, (vol v).fatbase + i / 512) ≠ s.buf.tag := by
    rw [htag]
    rintro rfl
    have hfat := Disk.fats_le vol v
    dsimp only at ha
    omega
  rw [Disk.fatByte, Disk.fatByte]
  exact congrFun ((congrFun (Cache.view_store (c := s.buf)) _).trans (Function.update_of_ne hne ..)) _

theorem link_store {s : Disk} {block : Sector} {c q : ℕ} (hc : 2 ≤ c ∧ c < (vol fs).maxClust)
    (htag : s.buf.tag = (fs, (vol fs).clust2sect c + q)) :
    ({ s with buf := s.buf.store block } : Disk).link vol = s.link vol :=
  link_store_data htag (data_clust2sect hc)

/-- The last cluster of a chain, as `create_chain` is told it. -/
theorem grow_cells {t : ℕ × ℕ → Link (ℕ × ℕ)} {b : ℕ × ℕ} (h : ∀ c ∈ cs, c ≠ 0) :
    grow t (if cs.getLastD 0 = 0 then [] else [(fs, cs.getLastD 0)]) b = grow t (cells fs cs) b := by
  apply grow_congr
  rw [List.getLast?_map]
  cases hlast : cs.getLast? with
  | none =>
    rw [List.getLastD_eq_getLast?, hlast]
    rfl
  | some c =>
    have hc := h c (List.mem_of_getLast? hlast)
    rw [List.getLastD_eq_getLast?, hlast, Option.getD_some, if_neg hc]
    rfl

theorem cluster_ne_zero (hchain : IsChain (s.link vol) (cells fs cs)) : ∀ c ∈ cs, c ≠ 0 := by
  intro c hc
  have := Disk.cluster_range hchain hc
  omega

/-- The chains of all files stay apart, each with its own clusters. -/
theorem ledger (h : Effect vol fs cs s cs' s') (hl : Ledger (s.link vol) chains) (hi : chains i = cells fs cs) :
    Ledger (s'.link vol) (Function.update chains i (cells fs cs')) := by
  induction h with
  | refl =>
    rw [← hi, Function.update_eq_self]
    exact hl
  | quiet _ hr ih =>
    rw [hr.link]
    exact ih
  | @take cs' s' s'' c _ ht ih =>
    have hchain : IsChain (s'.link vol) (cells fs cs') := by
      have := ih.chain i
      rwa [Function.update_self] at this
    have hgrow := ih.grow (i := i) ht.free
    rw [Function.update_self, Function.update_idem] at hgrow
    rw [ht.link, grow_cells (cluster_ne_zero hchain), cells_append]
    exact hgrow
  | @store cs' s' c q _ block hc hq htag ih =>
    have hchain := ih.chain i
    rw [Function.update_self] at hchain
    rw [link_store (Disk.cluster_range hchain hc) htag]
    exact ih

/-- The chain of the file stays a chain. -/
theorem chain (h : Effect vol fs cs s cs' s') (hchain : IsChain (s.link vol) (cells fs cs)) :
    IsChain (s'.link vol) (cells fs cs') := by
  have hone : Ledger (s.link vol) fun _ : Unit => cells fs cs := ⟨fun _ => hchain, fun _ _ hne => absurd rfl hne⟩
  have hledger := (h.ledger (i := ()) hone rfl).chain ()
  rwa [Function.update_self] at hledger

/-- The numbers of free clusters stay right. -/
theorem counted (h : Effect vol fs cs s cs' s') (hchain : IsChain (s.link vol) (cells fs cs)) (hs : s.Counted vol) :
    s'.Counted vol := by
  induction h with
  | refl => exact hs
  | quiet _ hr ih => exact hr.counted ih
  | @take cs' s' s'' c h ht ih =>
    refine ht.counted (fun hne => ?_) ih
    cases hlast : cs'.getLast? with
    | none =>
      rw [List.getLastD_eq_getLast?, hlast] at hne
      exact absurd rfl hne
    | some d =>
      rw [List.getLastD_eq_getLast?, hlast]
      exact (h.chain hchain).last (by rw [List.getLast?_map, hlast]; rfl)
  | @store cs' s' c q h block hc hq htag ih =>
    intro v
    rw [link_store (Disk.cluster_range (h.chain hchain) hc) htag]
    exact ih v

/-- No entry gets the value 1. -/
theorem noBad (h : Effect vol fs cs s cs' s') (hchain : IsChain (s.link vol) (cells fs cs)) {v : ℕ}
    (hs : s.NoBad vol v) : s'.NoBad vol v := by
  induction h with
  | refl => exact hs
  | quiet _ hr ih =>
    intro c hc hlt
    rw [hr.link]
    exact ih c hc hlt
  | @take cs' s' s'' c h ht ih =>
    intro d hd hlt
    have hnew : (cells fs cs').getLast? ≠ some (fs, c) := fun hlast =>
      ((h.chain hchain).taken (List.mem_of_getLast? hlast)).ne_free ht.free
    rw [ht.link, grow_cells (cluster_ne_zero (h.chain hchain))]
    by_cases hself : (v, d) = (fs, c)
    · rw [hself, grow_new hnew]
      exact nofun
    · by_cases hlast : (cells fs cs').getLast? = some (v, d)
      · rw [grow_last hlast]
        exact nofun
      · rw [grow_of_ne hself hlast]
        exact ih d hd hlt
  | @store cs' s' c q h block hc hq htag ih =>
    intro d hd hlt
    rw [link_store (Disk.cluster_range (h.chain hchain) hc) htag]
    exact ih d hd hlt

theorem sound (h : Effect vol fs cs s cs' s') (hchain : IsChain (s.link vol) (cells fs cs)) : s'.Sound vol := by
  cases h with
  | refl hs => exact hs
  | quiet _ hr => exact hr.sound
  | take _ ht => exact ht.sound
  | store h block hc hq htag =>
    refine Cache.Sound.store ?_
    rw [htag]
    exact Disk.primary_data (data_clust2sect (Disk.cluster_range (h.chain hchain) hc))

theorem healthy (h : Effect vol fs cs s cs' s') (hs : s.Healthy vol) : s'.Healthy vol := by
  induction h with
  | refl => exact hs
  | quiet _ hr ih => exact hr.healthy ih
  | take _ ht ih => exact ht.healthy ih
  | store _ block hc hq htag ih => exact ⟨ih.calm, ih.mirrored⟩

theorem isPrefix (h : Effect vol fs cs s cs' s') : cs <+: cs' := by
  induction h with
  | refl => exact List.prefix_rfl
  | quiet _ _ ih => exact ih
  | take _ _ ih => exact ih.trans (List.prefix_append ..)
  | store _ _ _ _ _ ih => exact ih

/-- Cells that are not in the chain keep their links. -/
theorem link_other (h : Effect vol fs cs s cs' s') (hchain : IsChain (s.link vol) (cells fs cs)) {a : ℕ × ℕ}
    (ha : a ∉ cells fs cs') : s'.link vol a = s.link vol a := by
  induction h with
  | refl => rfl
  | quiet _ hr ih =>
    rw [hr.link]
    exact ih ha
  | @take cs' s' s'' c h ht ih =>
    rw [cells_append] at ha
    have hold : a ∉ cells fs cs' := fun hmem => ha (List.mem_append_left _ hmem)
    rw [ht.link, grow_cells (cluster_ne_zero (h.chain hchain)), grow_of_ne, ih hold]
    · rintro rfl
      exact ha (List.mem_append_right _ List.mem_cons_self)
    · exact fun hlast => hold (List.mem_of_getLast? hlast)
  | @store cs' s' c q h block hc hq htag ih =>
    rw [link_store (Disk.cluster_range (h.chain hchain) hc) htag]
    exact ih ha

/-- The chain takes no cell that was in use. -/
theorem notMem_of_taken (h : Effect vol fs cs s cs' s') (hchain : IsChain (s.link vol) (cells fs cs)) {a : ℕ × ℕ}
    (htaken : (s.link vol a).Taken) (ha : a ∉ cells fs cs) : a ∉ cells fs cs' := by
  induction h with
  | refl => exact ha
  | quiet _ _ ih => exact ih
  | @take cs' s' s'' c h ht ih =>
    rw [cells_append]
    intro hmem
    obtain hmem | hmem := List.mem_append.mp hmem
    · exact ih hmem
    · obtain rfl := List.mem_singleton.mp hmem
      rw [← h.link_other hchain ih] at htaken
      exact htaken.ne_free ht.free
  | store _ _ _ _ _ ih => exact ih

/-- A sector behind the FATs that is in no cluster of the file keeps its contents. -/
theorem frame (h : Effect vol fs cs s cs' s') {a : ℕ × ℕ}
    (ha : (vol a.1).fatbase + (vol a.1).nFats * (vol a.1).sectsFat ≤ a.2)
    (hnot : ∀ c ∈ cs', ∀ q < (vol fs).csize, a ≠ (fs, (vol fs).clust2sect c + q)) :
    s'.buf.view a = s.buf.view a := by
  induction h with
  | refl => rfl
  | quiet _ hr ih => exact (hr.data a ha).trans (ih hnot)
  | take _ ht ih => exact (ht.data a ha).trans (ih fun c hc => hnot c (List.mem_append_left _ hc))
  | @store cs' s' c q _ block hc hq htag ih =>
    refine (congrFun (Cache.view_store (c := s'.buf)) a).trans ((Function.update_of_ne ?_ ..).trans (ih hnot))
    rw [htag]
    exact hnot c hc q hq

end Effect

end NoDiskEmu.Ff
