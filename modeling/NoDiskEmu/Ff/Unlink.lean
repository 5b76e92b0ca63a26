import NoDiskEmu.Ff.Sync

/-! The end of `f_unlink`: the directory entries of a file are marked, and its clusters are free again. -/

namespace NoDiskEmu.Ff

open Library Library.Chain Library.WriteBack Fat

namespace Disk

variable (vol : ℕ → Volume)

/-- The loop of `f_unlink` that marks the entries of a file as deleted, for their sectors and places in them. -/
def markDeleted (s : Disk) (fs : ℕ) : List (ℕ × ℕ) → Bool × Disk
  | [] => (true, s)
  | (sect, ptr) :: marks =>
    let m := s.moveWindow vol fs sect
    if m.1 then (m.2.setByte ptr 0xe5).markDeleted fs marks else m

/-- `f_unlink` when it has found the entries of the file and its first cluster. -/
def fUnlink (s : Disk) (fs : ℕ) (marks : List (ℕ × ℕ)) (clust : ℕ) : FResult × Disk :=
  let m := s.markDeleted vol fs marks
  if m.1 = false then (.rwError, m.2)
  else
    let r := m.2.removeChain vol fs clust
    if r.1 = false then (.rwError, r.2) else r.2.sync vol fs

variable {vol} {s s' : Disk} {fs sector : ℕ}

section Tag

theorem tag_writeCopies (v : Volume) (n wsect : ℕ) : (writeCopies v n wsect s).buf.tag = s.buf.tag := by
  induction n generalizing s wsect with
  | zero => rfl
  | succ n ih =>
    rw [writeCopies, ih, diskWrite]
    cases s.io 0 <;> rfl

theorem tag_flushWindow : (s.flushWindow vol).2.buf.tag = s.buf.tag := by
  rw [flushWindow]
  split
  · cases s.io 0 with
    | failed left => rfl
    | ok =>
      dsimp only
      split
      · rw [tag_writeCopies]
        rfl
      · rfl
  · rfl

/-- The window stays at a sector that may be changed. -/
theorem primary_moveWindow (htag : Primary vol s.buf.tag) (hsector : sector ≠ 0 → Primary vol (fs, sector)) :
    Primary vol (s.moveWindow vol fs sector).2.buf.tag := by
  rw [moveWindow]
  split
  · exact htag
  dsimp only
  split
  · split
    · rwa [tag_flushWindow]
    · rename_i hzero
      rw [loadWindow]
      cases (s.flushWindow vol).2.io 0 with
      | ok => exact hsector hzero
      | failed left =>
        show Primary vol (s.flushWindow vol).2.buf.tag
        rwa [tag_flushWindow]
  · rwa [tag_flushWindow]

theorem primary_move (htag : Primary vol s.buf.tag) (fs : ℕ) {q : ℕ} (hq : q < (vol fs).sectsFat) :
    Primary vol (s.moveWindow vol fs ((vol fs).fatbase + q)).2.buf.tag :=
  primary_moveWindow htag fun _ => primary_fat hq

theorem primary_getCluster (htag : Primary vol s.buf.tag) (fs clust : ℕ) :
    Primary vol (s.getCluster vol fs clust).2.buf.tag := by
  rw [getCluster]
  by_cases hc : 2 ≤ clust ∧ clust < (vol fs).maxClust
  · rw [if_pos hc]
    have hlt := table_lt vol fs hc.2
    cases hty : (vol fs).fsType with
    | fat12 =>
      rw [hty] at hlt
      have hfirst := primary_move htag fs (q := clust * 3 / 2 / 512) (by omega)
      have hsecond := primary_move hfirst fs (q := (clust * 3 / 2 + 1) / 512) (by omega)
      dsimp only
      split
      · split <;> exact hsecond
      · exact hfirst
    | fat16 =>
      rw [hty] at hlt
      have hmove := primary_move htag fs hlt
      dsimp only
      split <;> exact hmove
    | fat32 =>
      rw [hty] at hlt
      have hmove := primary_move htag fs hlt
      dsimp only
      split <;> exact hmove
  · rwa [if_neg hc]

theorem primary_putCluster (htag : Primary vol s.buf.tag) {clust : ℕ} (hc : clust < (vol fs).maxClust) (val : ℕ) :
    Primary vol (s.putCluster vol fs clust val).2.buf.tag := by
  rw [putCluster]
  have hlt := table_lt vol fs hc
  cases hty : (vol fs).fsType with
  | fat12 =>
    rw [hty] at hlt
    have hfirst := primary_move htag fs (q := clust * 3 / 2 / 512) (by omega)
    dsimp only
    split
    · have hsecond := fun x => primary_move (s := ((s.moveWindow vol fs ((vol fs).fatbase +
        clust * 3 / 2 / 512)).2.setByte (clust * 3 / 2 % 512) x)) hfirst fs (q := (clust * 3 / 2 + 1) / 512) (by omega)
      split <;> split <;> exact hsecond _
    · exact hfirst
  | fat16 =>
    rw [hty] at hlt
    have hmove := primary_move htag fs hlt
    dsimp only
    split <;> exact hmove
  | fat32 =>
    rw [hty] at hlt
    have hmove := primary_move htag fs hlt
    dsimp only
    split <;> exact hmove

theorem primary_removeLoop (fuel : ℕ) (htag : Primary vol s.buf.tag) (clust : ℕ) :
    Primary vol (removeLoop vol fs fuel clust s).2.buf.tag := by
  induction fuel generalizing s clust with
  | zero => exact htag
  | succ fuel ih =>
    rw [removeLoop]
    split
    · rename_i hc
      have hget := primary_getCluster htag fs clust
      dsimp only
      split
      · exact hget
      · have hput := primary_putCluster hget hc.2 0
        split
        · exact hput
        · exact ih (by rwa [buf_freed]) _
    · exact htag

end Tag

/-- What `f_unlink` does to the disk when it frees the clusters `l`. -/
structure Unlinked (vol : ℕ → Volume) (fs : ℕ) (marks : List (ℕ × ℕ)) (l : List (ℕ × ℕ)) (s s' : Disk) : Prop where
  sound : s'.Sound vol
  healthy : s.Healthy vol → s'.Healthy vol
  link : s'.link vol = clear (s.link vol) l
  data : ∀ a, (vol a.1).fatbase + (vol a.1).nFats * (vol a.1).sectsFat ≤ a.2 → ∀ j,
    (∀ m ∈ marks, (a, j) ≠ ((fs, m.1), m.2)) → s'.buf.view a j = s.buf.view a j
  counted : s.Counted vol → s'.Counted vol

theorem markDeleted_spec {marks : List (ℕ × ℕ)} (hs : s.Sound vol)
    (hmarks : ∀ m ∈ marks, (vol fs).fatbase + (vol fs).nFats * (vol fs).sectsFat ≤ m.1) :
    let r := s.markDeleted vol fs marks
    (r.1 = false ∧ ¬s.Healthy vol) ∨
      (r.1 = true ∧ Unlinked vol fs marks [] s r.2 ∧ (marks ≠ [] ∨ Primary vol s.buf.tag → Primary vol r.2.buf.tag)) := by
  induction marks generalizing s with
  | nil => exact .inr ⟨rfl, ⟨hs, id, rfl, fun _ _ _ _ => rfl, id⟩, fun h => h.resolve_left (absurd rfl)⟩
  | cons m marks ih =>
    have hdata := hmarks m List.mem_cons_self
    have hpos : m.1 ≠ 0 := by
      have := (vol fs).fatbase_pos
      omega
    rw [markDeleted]
    dsimp only
    obtain ⟨hno, hsick⟩ | ⟨hok, hsame, hsound, htag, hhealthy⟩ := moveWindow_cases hs fs m.1
    · rw [if_neg (by rw [hno]; exact Bool.noConfusion)]
      exact .inl ⟨hno, hsick⟩
    rw [if_pos hok]
    have htag := htag hpos
    have hmoved := hsame.relinked hsound hhealthy
    generalize (s.moveWindow vol fs m.1).2 = t at hsame hsound htag hhealthy hmoved ⊢
    have hprimary : Primary vol t.buf.tag := htag ▸ primary_data hdata
    have hlink : (t.setByte m.2 0xe5).link vol = s.link vol :=
      (Effect.link_store_data htag hdata).trans hmoved.link
    have hhealthy' : s.Healthy vol → (t.setByte m.2 0xe5).Healthy vol := fun h =>
      ⟨(hhealthy h).calm, (hhealthy h).mirrored⟩
    have hview : ∀ a, (vol a.1).fatbase + (vol a.1).nFats * (vol a.1).sectsFat ≤ a.2 → ∀ j,
        (a, j) ≠ ((fs, m.1), m.2) → (t.setByte m.2 0xe5).buf.view a j = s.buf.view a j := by
      intro a ha j hne
      rw [← hmoved.data a ha]
      refine (congrFun (congrFun (Cache.view_store (c := t.buf)) a) j).trans ?_
      by_cases hself : a = t.buf.tag
      · have hj : j ≠ m.2 := fun h => hne (by rw [hself, htag, h])
        rw [hself, Function.update_self, Function.update_of_ne hj, Cache.view_tag]
      · rw [Function.update_of_ne hself]
    have hcounted : s.Counted vol → (t.setByte m.2 0xe5).Counted vol := by
      intro h v
      rw [hlink, ← hmoved.link]
      exact hmoved.counted h v
    obtain ⟨hno, hsick⟩ | ⟨hok, hrest, hlast⟩ := ih (s := t.setByte m.2 0xe5) (Cache.Sound.store hprimary)
      fun m hm => hmarks m (List.mem_cons_of_mem _ hm)
    · exact .inl ⟨hno, fun h => hsick (hhealthy' h)⟩
    · refine .inr ⟨hok, ⟨hrest.sound, fun h => hrest.healthy (hhealthy' h), hrest.link.trans (by rw [hlink]), ?_,
        fun h => hrest.counted (hcounted h)⟩, fun _ => hlast (.inr hprimary)⟩
      intro a ha j hne
      exact (hrest.data a ha j fun m' hm' => hne m' (List.mem_cons_of_mem _ hm')).trans
        (hview a ha j (hne m List.mem_cons_self))

/-- `f_unlink`: only the entries of the file and its clusters change. -/
theorem fUnlink_spec {marks : List (ℕ × ℕ)} {clust : ℕ} {cs : List ℕ} (hs : s.Sound vol)
    (hmarks : ∀ m ∈ marks, (vol fs).fatbase + (vol fs).nFats * (vol fs).sectsFat ≤ m.1) (hne : marks ≠ [])
    (hchain : IsChain (s.link vol) (cells fs cs))
    (hhead : cs.head? = some clust ∨ cs = [] ∧ ¬(2 ≤ clust ∧ clust < (vol fs).maxClust)) :
    let r := s.fUnlink vol fs marks clust
    (Failed r.1 ∧ ¬s.Healthy vol) ∨ (r.1 = .ok ∧ Unlinked vol fs marks (cells fs cs) s r.2) := by
  rw [fUnlink]
  dsimp only
  obtain ⟨hno, hsick⟩ | ⟨hok, hmark, htag⟩ := markDeleted_spec hs hmarks
  · rw [if_pos hno]
    exact .inl ⟨.inr rfl, hsick⟩
  rw [if_neg (by rw [hok]; exact Bool.noConfusion)]
  have htag := htag (.inl hne)
  generalize (s.markDeleted vol fs marks).2 = t at hmark htag ⊢
  obtain ⟨hno, hsick⟩ | ⟨hok, hremove⟩ := removeChain_spec hmark.sound (hmark.link ▸ hchain) hhead
  · rw [if_pos hno]
    exact .inl ⟨.inr rfl, fun h => hsick (hmark.healthy h)⟩
  rw [if_neg (by rw [hok]; exact Bool.noConfusion)]
  have htag : Primary vol (t.removeChain vol fs clust).2.buf.tag := primary_removeLoop (vol fs).maxClust htag clust
  generalize (t.removeChain vol fs clust).2 = u at hremove htag ⊢
  obtain ⟨hno, hsick⟩ | ⟨hok, ⟨flag, hsync⟩, hsound, -, hhealthy⟩ := sync_spec htag fs
  · exact .inl ⟨hno, fun h => hsick (hremove.healthy (hmark.healthy h))⟩
  · have hquiet := hsync.relinked hsound fun h => hhealthy ⟨h.calm, h.mirrored⟩
    refine .inr ⟨hok, hsound, fun h => hhealthy (hremove.healthy (hmark.healthy h)), ?_, fun a ha j hne => ?_,
      fun h => hquiet.counted (hremove.counted (hmark.counted h))⟩
    · exact hquiet.link.trans (hremove.link.trans (by rw [hmark.link]; rfl))
    · exact (congrFun (hquiet.data a ha) j).trans ((congrFun (hremove.data a ha) j).trans (hmark.data a ha j hne))

end Disk

end NoDiskEmu.Ff
