import NoDiskEmu.Ff.Table
import Mathlib.Order.Interval.Finset.Nat

/-! The clusters of a volume: `create_chain` and `remove_chain` of `ff.c`. -/

namespace NoDiskEmu.Ff

open Library.Chain

namespace Disk

/-- The loop of `create_chain` that looks for a free cluster behind `ncl`, and from the first one on again
up to `scl`; 0: there is none, 1: a failure. -/
def searchFree (vol : ℕ → Volume) (fs scl : ℕ) : ℕ → ℕ → Disk → ℕ × Disk
  | 0, _, s => (1, s)
  | fuel + 1, ncl, s =>
    if (vol fs).maxClust ≤ ncl + 1 ∧ scl < 2 then (0, s)
    else
      let ncl := if (vol fs).maxClust ≤ ncl + 1 then 2 else ncl + 1
      let g := s.getCluster vol fs ncl
      if g.1 = 0 then (ncl, g.2)
      else if g.1 = 1 then g
      else if ncl = scl then (0, g.2)
      else searchFree vol fs scl fuel ncl g.2

/-- The bookkeeping of `create_chain` for a new cluster. -/
def allocated (s : Disk) (fs ncl : ℕ) : Disk :=
  { s with
    lastClust := Function.update s.lastClust fs ncl
    freeClust := if s.freeClust fs = 0xffffffff then s.freeClust
      else Function.update s.freeClust fs ((s.freeClust fs + 0xffffffff) % 2 ^ 32)
    fsiFlag := if s.freeClust fs = 0xffffffff then s.fsiFlag else Function.update s.fsiFlag fs true }

/-- The part of `create_chain` that takes a free cluster, found from `scl` on. -/
def takeFree (vol : ℕ → Volume) (s : Disk) (fs clust scl : ℕ) : ℕ × Disk :=
  let f := searchFree vol fs scl (vol fs).maxClust scl s
  if f.1 < 2 then f
  else
    let p := f.2.putCluster vol fs f.1 0x0fffffff
    if p.1 = false then (1, p.2)
    else
      let p := if clust ≠ 0 then p.2.putCluster vol fs clust f.1 else p
      if p.1 = false then (1, p.2) else (f.1, p.2.allocated fs f.1)

/-- `create_chain`; 0: no free cluster, 1: a failure. -/
def createChain (vol : ℕ → Volume) (s : Disk) (fs clust : ℕ) : ℕ × Disk :=
  if clust = 0 then
    takeFree vol s fs 0
      (if s.lastClust fs = 0 ∨ (vol fs).maxClust ≤ s.lastClust fs then 1 else s.lastClust fs)
  else
    let g := s.getCluster vol fs clust
    if g.1 < 2 then (1, g.2)
    else if g.1 < (vol fs).maxClust then g
    else takeFree vol g.2 fs clust clust

/-- The bookkeeping of `remove_chain` for a cluster. -/
def freed (s : Disk) (fs : ℕ) : Disk :=
  if s.freeClust fs = 0xffffffff then s
  else { s with
    freeClust := Function.update s.freeClust fs ((s.freeClust fs + 1) % 2 ^ 32)
    fsiFlag := Function.update s.fsiFlag fs true }

/-- The loop of `remove_chain`. -/
def removeLoop (vol : ℕ → Volume) (fs : ℕ) : ℕ → ℕ → Disk → Bool × Disk
  | 0, _, s => (false, s)
  | fuel + 1, clust, s =>
    if 2 ≤ clust ∧ clust < (vol fs).maxClust then
      let g := s.getCluster vol fs clust
      if g.1 = 1 then (false, g.2)
      else
        let p := g.2.putCluster vol fs clust 0
        if p.1 = false then p else removeLoop vol fs fuel g.1 (p.2.freed fs)
    else (true, s)

/-- `remove_chain`. -/
def removeChain (vol : ℕ → Volume) (s : Disk) (fs clust : ℕ) : Bool × Disk :=
  removeLoop vol fs (vol fs).maxClust clust s

end Disk

/-- The clusters that `create_chain` passes on its way from `scl` to `ncl`. -/
def Between (mcl scl ncl c : ℕ) : Prop :=
  if scl < ncl then scl < c ∧ c < ncl else (scl < c ∧ c < mcl) ∨ (2 ≤ c ∧ c < ncl)

namespace Disk

variable {vol : ℕ → Volume} {s s' : Disk} {fs clust scl ncl : ℕ} {t : ℕ × ℕ → Link (ℕ × ℕ)}

/-- No cluster of the volume has an entry with the value 1. -/
def NoBad (vol : ℕ → Volume) (s : Disk) (fs : ℕ) : Prop :=
  ∀ c, 2 ≤ c → c < (vol fs).maxClust → s.link vol (fs, c) ≠ .bad

/-- The search finds the first free cluster on its way, and 0 only if there is none. -/
theorem searchFree_spec (fuel : ℕ) (hs : s.Sound vol) (hscl : 1 ≤ scl) (hscl' : scl < (vol fs).maxClust)
    (hncl : ncl < (vol fs).maxClust)
    (hpassed : (scl ≤ ncl ∧ (∀ c, scl < c → c ≤ ncl → s.link vol (fs, c) ≠ .free) ∧
        (vol fs).maxClust + scl ≤ fuel + ncl) ∨
      (1 < ncl ∧ ncl < scl ∧ (∀ c, scl < c ∧ c < (vol fs).maxClust ∨ 2 ≤ c ∧ c ≤ ncl → s.link vol (fs, c) ≠ .free) ∧
        scl < fuel + ncl)) :
    let r := searchFree vol fs scl fuel ncl s
    (r.1 = 1 ∧ (s.NoBad vol fs → ¬s.Healthy vol)) ∨
      (Relinked vol (s.link vol) s r.2 ∧
        ((r.1 = 0 ∧ ∀ c, 2 ≤ c → c < (vol fs).maxClust → s.link vol (fs, c) ≠ .free) ∨
          (2 ≤ r.1 ∧ r.1 < (vol fs).maxClust ∧ s.link vol (fs, r.1) = .free ∧
            ∀ c, Between (vol fs).maxClust scl r.1 c → s.link vol (fs, c) ≠ .free))) := by
  induction fuel generalizing ncl s with
  | zero => omega
  | succ fuel ih =>
    rw [searchFree]
    by_cases hend : (vol fs).maxClust ≤ ncl + 1 ∧ scl < 2
    · rw [if_pos hend]
      obtain ⟨hle, hfree, -⟩ | ⟨hlow, hlt, -⟩ := hpassed
      · exact .inr ⟨.refl hs, .inl ⟨rfl, fun c hc hlt => hfree c (by omega) (by omega)⟩⟩
      · omega
    rw [if_neg hend]
    dsimp only
    generalize hncl' : (if (vol fs).maxClust ≤ ncl + 1 then 2 else ncl + 1) = ncl'
    have hrange : 2 ≤ ncl' ∧ ncl' < (vol fs).maxClust := by
      split_ifs at hncl' <;> omega
    -- what was passed before the cluster that is looked at now
    have hbefore : ∀ c, Between (vol fs).maxClust scl ncl' c → s.link vol (fs, c) ≠ .free := by
      intro c hc
      rw [Between] at hc
      obtain ⟨hle, hfree, -⟩ | ⟨hlow, hlt, hfree, -⟩ := hpassed
      · split_ifs at hncl' hc
        · omega
        · exact hfree c (by omega) (by omega)
        · exact hfree c (by omega) (by omega)
        · omega
      · split_ifs at hncl' hc
        · omega
        · omega
        · omega
        · exact hfree c (by omega)
    obtain ⟨hone, hbad⟩ | ⟨hlink, hone, hget⟩ := getCluster_link hs fs ncl'
    · rw [if_neg (by omega), if_pos hone]
      exact .inl ⟨hone, fun hno => hbad (hno _ hrange.1 hrange.2)⟩
    · by_cases hzero : (s.getCluster vol fs ncl').1 = 0
      · rw [if_pos hzero]
        refine .inr ⟨hget, .inr ⟨hrange.1, hrange.2, ?_, hbefore⟩⟩
        rw [hlink, Volume.linkOf_eq_free.mpr hzero]
      · rw [if_neg hzero, if_neg hone]
        have htaken : s.link vol (fs, ncl') ≠ .free := by
          rw [hlink]
          exact fun h => hzero (Volume.linkOf_eq_free.mp h)
        by_cases hself : ncl' = scl
        · rw [if_pos hself]
          refine .inr ⟨hget, .inl ⟨rfl, fun c hc hlt => ?_⟩⟩
          by_cases hcn : c = ncl'
          · exact hcn ▸ htaken
          · refine hbefore c ?_
            rw [Between, if_neg (by omega)]
            omega
        · rw [if_neg hself]
          have hnext : ∀ c, c = ncl' ∨ Between (vol fs).maxClust scl ncl' c →
              (s.getCluster vol fs ncl').2.link vol (fs, c) ≠ .free := by
            rw [hget.link]
            rintro c (rfl | hc)
            · exact htaken
            · exact hbefore c hc
          have hih := @ih _ ncl' hget.sound hrange.2 ?_
          · dsimp only at hih ⊢
            rw [hget.link] at hih
            obtain ⟨hr, hsick⟩ | ⟨hrelinked, hr⟩ := hih
            · refine .inl ⟨hr, fun hno hhealthy => hsick (fun c hc hlt => ?_) (hget.healthy hhealthy)⟩
              rw [hget.link]
              exact hno c hc hlt
            · exact .inr ⟨hget.trans hrelinked, hr⟩
          · by_cases hle : scl ≤ ncl'
            · refine .inl ⟨hle, fun c hc hcn => hnext c ?_, ?_⟩
              · rw [Between, if_pos (by omega)]
                omega
              · split_ifs at hncl' <;> omega
            · refine .inr ⟨hrange.1, by omega, fun c hc => hnext c ?_, ?_⟩
              · rw [Between, if_neg (by omega)]
                omega
              · split_ifs at hncl' <;> omega

/-- What `create_chain` does to the disk when it takes the free cluster `ncl`. -/
structure Took (vol : ℕ → Volume) (fs clust ncl : ℕ) (s s' : Disk) : Prop where
  low : 2 ≤ ncl
  lt : ncl < (vol fs).maxClust
  free : s.link vol (fs, ncl) = .free
  sound : s'.Sound vol
  healthy : s.Healthy vol → s'.Healthy vol
  link : s'.link vol = grow (s.link vol) (if clust = 0 then [] else [(fs, clust)]) (fs, ncl)
  data : ∀ a, (vol a.1).fatbase + (vol a.1).nFats * (vol a.1).sectsFat ≤ a.2 → s'.buf.view a = s.buf.view a
  lastClust : s'.lastClust = Function.update s.lastClust fs ncl
  freeClust : s'.freeClust = if s.freeClust fs = 0xffffffff then s.freeClust
    else Function.update s.freeClust fs ((s.freeClust fs + 0xffffffff) % 2 ^ 32)

theorem Healthy.allocated (h : s.Healthy vol) : (s.allocated fs ncl).Healthy vol := ⟨h.calm, h.mirrored⟩

theorem link_allocated : (s.allocated fs ncl).link vol = s.link vol := rfl

theorem takeFree_spec (hs : s.Sound vol) (clust : ℕ) (hscl : 1 ≤ scl) (hscl' : scl < (vol fs).maxClust)
    (hclust : clust ≠ 0 → 2 ≤ clust ∧ clust < (vol fs).maxClust) :
    let r := takeFree vol s fs clust scl
    (r.1 = 1 ∧ (s.NoBad vol fs → ¬s.Healthy vol)) ∨
      (r.1 = 0 ∧ Relinked vol (s.link vol) s r.2 ∧
        ∀ c, 2 ≤ c → c < (vol fs).maxClust → s.link vol (fs, c) ≠ .free) ∨
      (Took vol fs clust r.1 s r.2 ∧
        ∀ c, Between (vol fs).maxClust scl r.1 c → s.link vol (fs, c) ≠ .free) := by
  rw [takeFree]
  dsimp only
  obtain ⟨hone, hsick⟩ | ⟨hsearch, ⟨hzero, hnone⟩ | ⟨hlow, hlt, hfree, hnear⟩⟩ :=
    searchFree_spec (vol fs).maxClust hs hscl hscl' hscl' (.inl ⟨le_rfl, fun c h h' => absurd h (by omega), by omega⟩)
  · rw [if_pos (by omega)]
    exact .inl ⟨hone, hsick⟩
  · rw [if_pos (by omega)]
    exact .inr (.inl ⟨hzero, hsearch, hnone⟩)
  · rw [if_neg (by omega)]
    generalize searchFree vol fs scl (vol fs).maxClust scl s = f at hsearch hlow hlt hfree hnear ⊢
    obtain ⟨hno, hsick⟩ | ⟨hok, hmark⟩ := putCluster_link 0x0fffffff hsearch.sound ⟨hlow, hlt⟩
    · rw [if_pos hno]
      exact .inl ⟨rfl, fun _ h => hsick (hsearch.healthy h)⟩
    rw [if_neg (by rw [hok]; exact Bool.noConfusion)]
    rw [hsearch.link, Volume.linkOf_last] at hmark
    have hmarked := hsearch.trans hmark
    generalize f.2.putCluster vol fs f.1 0x0fffffff = p at hok hmarked ⊢
    by_cases hnew : clust = 0
    · subst hnew
      rw [if_neg (not_not.mpr rfl), if_neg (by rw [hok]; exact Bool.noConfusion)]
      refine .inr (.inr ⟨⟨hlow, hlt, hfree, hmarked.sound, fun h => (hmarked.healthy h).allocated, ?_, hmarked.data, ?_, ?_⟩,
        hnear⟩)
      · rw [link_allocated, hmarked.link, if_pos rfl]
        rfl
      · exact congrArg (Function.update · fs f.1) hmarked.lastClust
      · rw [← hmarked.freeClust]
        rfl
    · rw [if_pos hnew]
      obtain ⟨hno, hsick⟩ | ⟨hok', hput⟩ := putCluster_link f.1 hmarked.sound (hclust hnew)
      · rw [if_pos hno]
        exact .inl ⟨rfl, fun _ h => hsick (hmarked.healthy h)⟩
      rw [if_neg (by rw [hok']; exact Bool.noConfusion)]
      rw [hmarked.link, Volume.linkOf_next hlow hlt] at hput
      have hlinked := hmarked.trans hput
      refine .inr (.inr ⟨⟨hlow, hlt, hfree, hlinked.sound, fun h => (hlinked.healthy h).allocated, ?_, hlinked.data, ?_, ?_⟩,
        hnear⟩)
      · rw [link_allocated, hlinked.link, if_neg hnew]
        rfl
      · exact congrArg (Function.update · fs f.1) hlinked.lastClust
      · rw [← hlinked.freeClust]
        rfl

/-- `create_chain` behind the last cluster of a chain, or for a new one. -/
theorem createChain_last (hs : s.Sound vol) (fs clust : ℕ)
    (hlast : clust ≠ 0 → s.link vol (fs, clust) = .last) :
    let r := createChain vol s fs clust
    (r.1 = 1 ∧ (s.NoBad vol fs → ¬s.Healthy vol)) ∨
      (r.1 = 0 ∧ Relinked vol (s.link vol) s r.2 ∧
        ∀ c, 2 ≤ c → c < (vol fs).maxClust → s.link vol (fs, c) ≠ .free) ∨
      Took vol fs clust r.1 s r.2 := by
  rw [createChain]
  dsimp only
  by_cases hnew : clust = 0
  · subst hnew
    rw [if_pos rfl]
    generalize hscl : (if s.lastClust fs = 0 ∨ (vol fs).maxClust ≤ s.lastClust fs then 1 else s.lastClust fs) = scl
    have hge := (vol fs).maxClust_ge
    have hrange : 1 ≤ scl ∧ scl < (vol fs).maxClust := by
      split_ifs at hscl <;> omega
    obtain h | h | h := takeFree_spec hs 0 hrange.1 hrange.2 fun hne => absurd rfl hne
    · exact .inl h
    · exact .inr (.inl h)
    · exact .inr (.inr h.1)
  · rw [if_neg hnew]
    have hlink := hlast hnew
    have hrange : 2 ≤ clust ∧ clust < (vol fs).maxClust := by
      by_contra hout
      rw [Disk.link, if_neg hout] at hlink
      cases hlink
    obtain ⟨hone, hsick⟩ | ⟨hentry, hone, hget⟩ := getCluster_link hs fs clust
    · rw [if_pos (by omega)]
      exact .inl ⟨rfl, fun _ => hsick (by rw [hlink]; intro h; cases h)⟩
    · rw [hlink, Volume.linkOf] at hentry
      have hhigh : ¬(s.getCluster vol fs clust).1 < 2 ∧
          ¬(s.getCluster vol fs clust).1 < (vol fs).maxClust := by
        split_ifs at hentry with h0 h2
        exact ⟨by omega, h2⟩
      rw [if_neg hhigh.1, if_neg hhigh.2]
      obtain ⟨hr, hsick⟩ | ⟨hr, hrelinked, hfull⟩ | ⟨htook, -⟩ :=
        takeFree_spec hget.sound clust (by omega) hrange.2 fun _ => hrange
      · refine .inl ⟨hr, fun hno h => hsick (fun c hc hlt => ?_) (hget.healthy h)⟩
        rw [hget.link]
        exact hno c hc hlt
      · rw [hget.link] at hrelinked
        refine .inr (.inl ⟨hr, hget.trans hrelinked, fun c hc hlt => ?_⟩)
        have := hfull c hc hlt
        rwa [hget.link] at this
      · refine .inr (.inr ⟨htook.low, htook.lt, ?_, htook.sound, htook.healthy ∘ hget.healthy, ?_, fun a ha => ?_, ?_, ?_⟩)
        · rw [← hget.link]
          exact htook.free
        · rw [htook.link, hget.link]
        · exact (htook.data a ha).trans (hget.data a ha)
        · rw [htook.lastClust, hget.lastClust]
        · rw [htook.freeClust, hget.freeClust]

/-- `create_chain` inside a chain follows it. -/
theorem createChain_next {c : ℕ} (hs : s.Sound vol) (hlink : s.link vol (fs, clust) = .next (fs, c)) :
    let r := createChain vol s fs clust
    (r.1 = 1 ∧ ¬s.Healthy vol) ∨ (r.1 = c ∧ Relinked vol (s.link vol) s r.2) := by
  rw [createChain]
  dsimp only
  have hrange : 2 ≤ clust ∧ clust < (vol fs).maxClust := by
    by_contra hout
    rw [Disk.link, if_neg hout] at hlink
    cases hlink
  rw [if_neg (by omega)]
  obtain ⟨hone, hsick⟩ | ⟨hentry, hone, hget⟩ := getCluster_link hs fs clust
  · rw [if_pos (by omega)]
    exact .inl ⟨rfl, hsick (by rw [hlink]; intro h; cases h)⟩
  · rw [hlink, Volume.linkOf] at hentry
    split_ifs at hentry with h0 h2
    have hc : c = (s.getCluster vol fs clust).1 := by injection hentry with h; injection h
    rw [if_neg (by omega), if_pos h2]
    exact .inr ⟨hc.symm, hget⟩

/-- The clusters of a volume. -/
def clusters (vol : ℕ → Volume) (fs : ℕ) : Finset (ℕ × ℕ) := (Finset.Ico 2 (vol fs).maxClust).image (Prod.mk fs)

theorem mem_clusters {a : ℕ × ℕ} : a ∈ clusters vol fs ↔ a.1 = fs ∧ 2 ≤ a.2 ∧ a.2 < (vol fs).maxClust := by
  rw [clusters, Finset.mem_image]
  constructor
  · rintro ⟨c, hc, rfl⟩
    exact ⟨rfl, Finset.mem_Ico.mp hc⟩
  · rintro ⟨rfl, hc⟩
    exact ⟨a.2, Finset.mem_Ico.mpr hc, rfl⟩

theorem freeCount_lt (vol : ℕ → Volume) (fs : ℕ) (t : ℕ × ℕ → Link (ℕ × ℕ)) : freeCount (clusters vol fs) t < 0xffffffff := by
  have hcard : freeCount (clusters vol fs) t ≤ (vol fs).maxClust - 2 :=
    (Finset.card_filter_le _ _).trans (Finset.card_image_le.trans (Nat.card_Ico 2 _).le)
  have := (vol fs).maxClust_le
  omega

/-- The number of free clusters of every volume is unknown, or right. -/
def Counted (vol : ℕ → Volume) (s : Disk) : Prop :=
  ∀ fs, s.freeClust fs = 0xffffffff ∨ s.freeClust fs = freeCount (clusters vol fs) (s.link vol)

theorem Relinked.counted (h : Relinked vol (s.link vol) s s') (hs : s.Counted vol) : s'.Counted vol := by
  intro fs
  rw [h.freeClust, h.link]
  exact hs fs

/-- A change of one cluster of a volume leaves those of the other volumes as they are. -/
theorem freeCount_other {v c : ℕ} {l : Link (ℕ × ℕ)} (hv : v ≠ fs) :
    freeCount (clusters vol v) (Function.update t (fs, c) l) = freeCount (clusters vol v) t := by
  apply freeCount_congr
  intro a ha
  have hne : a ≠ (fs, c) := fun heq => hv ((mem_clusters.mp ha).1.symm.trans (congrArg Prod.fst heq))
  rw [Function.update_of_ne hne]

theorem Took.counted (h : Took vol fs clust ncl s s') (hlast : clust ≠ 0 → s.link vol (fs, clust) = .last)
    (hs : s.Counted vol) : s'.Counted vol := by
  intro v
  rw [h.freeClust, h.link]
  by_cases hv : v = fs
  · subst hv
    obtain hnone | hcount := hs v
    · rw [if_pos hnone]
      exact .inl hnone
    · have hlt := freeCount_lt vol v (s.link vol)
      have hmem : (v, ncl) ∈ clusters vol v := mem_clusters.mpr ⟨rfl, h.low, h.lt⟩
      have hchain : IsChain (s.link vol) (if clust = 0 then [] else [(v, clust)]) := by
        split_ifs with hnew
        · trivial
        · exact hlast hnew
      have hgrow := freeCount_grow hchain hmem h.free
      rw [if_neg (by omega), Function.update_self]
      right
      omega
  · have hsame : freeCount (clusters vol v) (grow (s.link vol) (if clust = 0 then [] else [(fs, clust)]) (fs, ncl)) =
        freeCount (clusters vol v) (s.link vol) := by
      split_ifs
      · exact freeCount_other hv
      · exact (freeCount_other hv).trans (freeCount_other hv)
    rw [hsame]
    split_ifs
    · exact hs v
    · rw [Function.update_of_ne hv]
      exact hs v

theorem link_freed : (s.freed fs).link vol = s.link vol := by
  rw [freed]
  split_ifs <;> rfl

theorem buf_freed : (s.freed fs).buf = s.buf := by
  rw [freed]
  split_ifs <;> rfl

theorem io_freed : (s.freed fs).io = s.io := by
  rw [freed]
  split_ifs <;> rfl

theorem lastClust_freed : (s.freed fs).lastClust = s.lastClust := by
  rw [freed]
  split_ifs <;> rfl

theorem Healthy.freed (h : s.Healthy vol) : (s.freed fs).Healthy vol := by
  constructor
  · rw [Calm, io_freed]
    exact h.calm
  · rw [Mirrored, buf_freed]
    exact h.mirrored

/-- A cluster in use that is freed, and counted. -/
theorem Relinked.counted_freed (h : Relinked vol (Function.update (s.link vol) (fs, clust) .free) s s')
    (hc : 2 ≤ clust ∧ clust < (vol fs).maxClust) (htaken : s.link vol (fs, clust) ≠ .free) (hs : s.Counted vol) :
    (s'.freed fs).Counted vol := by
  intro v
  rw [link_freed, h.link, freed, h.freeClust]
  by_cases hv : v = fs
  · subst hv
    obtain hnone | hcount := hs v
    · rw [if_pos hnone, h.freeClust]
      exact .inl hnone
    · have hlt := freeCount_lt vol v (s.link vol)
      have hmem : (v, clust) ∈ clusters vol v := mem_clusters.mpr ⟨rfl, hc⟩
      rw [if_neg (by omega), freeCount_update hmem htaken]
      dsimp only
      rw [Function.update_self]
      right
      omega
  · rw [freeCount_other hv]
    split_ifs
    · rw [h.freeClust]
      exact hs v
    · dsimp only
      rw [Function.update_of_ne hv]
      exact hs v

/-- What `remove_chain` does to the disk when it frees the clusters `l`. -/
structure Released (vol : ℕ → Volume) (l : List (ℕ × ℕ)) (s s' : Disk) : Prop where
  sound : s'.Sound vol
  healthy : s.Healthy vol → s'.Healthy vol
  link : s'.link vol = clear (s.link vol) l
  data : ∀ a, (vol a.1).fatbase + (vol a.1).nFats * (vol a.1).sectsFat ≤ a.2 → s'.buf.view a = s.buf.view a
  lastClust : s'.lastClust = s.lastClust
  counted : s.Counted vol → s'.Counted vol

theorem removeLoop_spec (fuel : ℕ) {cs : List ℕ} (hs : s.Sound vol)
    (hchain : IsChain (s.link vol) (cs.map (Prod.mk fs))) (hfuel : cs.length < fuel)
    (hhead : cs.head? = some clust ∨ cs = [] ∧ ¬(2 ≤ clust ∧ clust < (vol fs).maxClust)) :
    let r := removeLoop vol fs fuel clust s
    (r.1 = false ∧ ¬s.Healthy vol) ∨ (r.1 = true ∧ Released vol (cs.map (Prod.mk fs)) s r.2) := by
  induction fuel generalizing cs clust s with
  | zero => omega
  | succ fuel ih =>
    rw [removeLoop]
    obtain hhead | ⟨rfl, hout⟩ := hhead
    swap
    · rw [if_neg hout]
      exact .inr ⟨rfl, hs, id, rfl, fun _ _ => rfl, rfl, id⟩
    cases cs with
    | nil => cases hhead
    | cons c cs =>
      obtain rfl : c = clust := by injection hhead
      have htaken := hchain.taken (a := (fs, c)) List.mem_cons_self
      have hrange : 2 ≤ c ∧ c < (vol fs).maxClust := by
        by_contra hout
        rw [Disk.link, if_neg hout] at htaken
        obtain ⟨a, h⟩ | h := htaken <;> cases h
      rw [if_pos hrange]
      dsimp only
      obtain ⟨hone, hsick⟩ | ⟨hentry, hone, hget⟩ := getCluster_link hs fs c
      · rw [if_pos hone]
        refine .inl ⟨rfl, hsick fun hbad => ?_⟩
        rw [hbad] at htaken
        obtain ⟨a, h⟩ | h := htaken <;> cases h
      rw [if_neg hone]
      generalize s.getCluster vol fs c = g at hentry hone hget ⊢
      obtain ⟨hno, hsick⟩ | ⟨hok, hput⟩ := putCluster_link 0 hget.sound hrange
      · rw [if_pos hno]
        exact .inl ⟨hno, fun h => hsick (hget.healthy h)⟩
      rw [if_neg (by rw [hok]; exact Bool.noConfusion)]
      rw [hget.link, Volume.linkOf_zero] at hput
      have hfreed := hget.trans hput
      generalize g.2.putCluster vol fs c 0 = p at hfreed ⊢
      have hnot : (fs, c) ∉ cs.map (Prod.mk fs) := (List.nodup_cons.mp hchain.nodup).1
      have hrest : IsChain ((p.2.freed fs).link vol) (cs.map (Prod.mk fs)) := by
        rw [link_freed, hfreed.link]
        exact hchain.tail.congr fun a ha => Function.update_of_ne (fun heq : a = (fs, c) => hnot (heq ▸ ha)) ..
      have hnext : cs.head? = some g.1 ∨ cs = [] ∧ ¬(2 ≤ g.1 ∧ g.1 < (vol fs).maxClust) := by
        cases cs with
        | nil =>
          have hlast : s.link vol (fs, c) = .last := hchain
          rw [hlast, Volume.linkOf] at hentry
          split_ifs at hentry with h0 h2
          exact .inr ⟨rfl, by omega⟩
        | cons d cs =>
          have hnext : s.link vol (fs, c) = .next (fs, d) := hchain.1
          rw [hnext, Volume.linkOf] at hentry
          split_ifs at hentry
          exact .inl (by injection hentry with h; injection h with _ h; rw [h]; rfl)
      have hsound : (p.2.freed fs).Sound vol := by
        rw [Sound, buf_freed]
        exact hfreed.sound
      obtain ⟨hr, hsick⟩ | ⟨hr, hreleased⟩ := ih hsound hrest (Nat.lt_of_succ_lt_succ hfuel) hnext
      · exact .inl ⟨hr, fun h => hsick (hfreed.healthy h).freed⟩
      · refine .inr ⟨hr, hreleased.sound, fun h => hreleased.healthy (hfreed.healthy h).freed, ?_, fun a ha => ?_, ?_,
          fun hc => hreleased.counted (hfreed.counted_freed hrange htaken.ne_free hc)⟩
        · rw [hreleased.link, link_freed, hfreed.link, List.map_cons, clear_cons]
        · rw [hreleased.data a ha, buf_freed]
          exact hfreed.data a ha
        · rw [hreleased.lastClust, lastClust_freed]
          exact hfreed.lastClust

/-- A chain has no more cells than its volume has clusters. -/
theorem chain_length_lt {cs : List ℕ} (hchain : IsChain (s.link vol) (cs.map (Prod.mk fs))) :
    cs.length < (vol fs).maxClust := by
  have hsub : (cs.map (Prod.mk fs)).toFinset ⊆ clusters vol fs := by
    intro a ha
    have hmem := List.mem_toFinset.mp ha
    obtain ⟨c, -, rfl⟩ := List.mem_map.mp hmem
    have htaken := hchain.taken hmem
    refine mem_clusters.mpr ⟨rfl, ?_⟩
    by_contra hout
    rw [Disk.link, if_neg hout] at htaken
    obtain ⟨a, h⟩ | h := htaken <;> cases h
  have hcard := Finset.card_le_card hsub
  rw [List.toFinset_card_of_nodup hchain.nodup, List.length_map] at hcard
  have hle : (clusters vol fs).card ≤ (vol fs).maxClust - 2 := Finset.card_image_le.trans (Nat.card_Ico 2 _).le
  have := (vol fs).maxClust_ge
  omega

/-- `remove_chain` frees the clusters of a chain. -/
theorem removeChain_spec {cs : List ℕ} (hs : s.Sound vol) (hchain : IsChain (s.link vol) (cs.map (Prod.mk fs)))
    (hhead : cs.head? = some clust ∨ cs = [] ∧ ¬(2 ≤ clust ∧ clust < (vol fs).maxClust)) :
    let r := removeChain vol s fs clust
    (r.1 = false ∧ ¬s.Healthy vol) ∨ (r.1 = true ∧ Released vol (cs.map (Prod.mk fs)) s r.2) :=
  removeLoop_spec _ hs hchain (chain_length_lt hchain) hhead

end Disk

end NoDiskEmu.Ff
