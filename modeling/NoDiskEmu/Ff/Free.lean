import Mathlib.Data.Nat.Count
import NoDiskEmu.Ff.Runs

/-! `l_getfree` of `ff.c`, which counts the free clusters of a volume. -/

namespace NoDiskEmu.Ff

open Library.Chain Library.WriteBack

/-- The size of an entry in `l_getfree`, which knows FAT16 and FAT32 apart. -/
def FsType.width (ty : FsType) : ℕ := if ty = .fat16 then 2 else 4

/-- An entry of the FAT as `l_getfree` compares it with 0: that of a FAT32 has 32 bits. -/
def FsType.raw (ty : FsType) (b : ℕ → UInt8) (p : ℕ) : ℕ := if ty = .fat16 then ldWord b p else ldDword b p

namespace Disk

/-- The loop of `l_getfree` over the clusters of a FAT12. A cluster that cannot be read counts as used. -/
def countClusters (vol : ℕ → Volume) (fs : ℕ) : ℕ → ℕ → ℕ → Disk → ℕ × Disk
  | 0, _, n, s => (n, s)
  | rounds + 1, clust, n, s =>
    let r := s.getCluster vol fs clust
    countClusters vol fs rounds (clust + 1) (if r.1 % 65536 = 0 then n + 1 else n) r.2

/-- The loop of `l_getfree` over the entries of a FAT16 or FAT32; `f` is a BYTE that comes to 0 at the end of
a sector. No result is `FR_RW_ERROR`. -/
def countEntries (vol : ℕ → Volume) (fs maxclust : ℕ) : ℕ → ℕ → ℕ → ℕ → ℕ → Disk → Option ℕ × Disk
  | 0, _, _, _, n, s => (some n, s)
  | clust + 1, sect, f, p, n, s =>
    if maxclust ≠ 0 ∧ maxclust ≤ n then (some maxclust, s)
    else
      let m := if f = 0 then s.moveWindow vol fs sect else (true, s)
      if m.1 then
        let sect := if f = 0 then sect + 1 else sect
        let p := if f = 0 then 0 else p
        let ty := (vol fs).fsType
        countEntries vol fs maxclust clust sect ((f + ty.width / 2) % 256) (p + ty.width)
          (if ty.raw m.2.buf.block p = 0 then n + 1 else n) m.2
      else (none, m.2)

/-- The part of `l_getfree` that looks at the FAT. -/
def countFree (vol : ℕ → Volume) (s : Disk) (fs maxclust : ℕ) : Option ℕ × Disk :=
  if (vol fs).fsType = .fat12 then
    let r := countClusters vol fs (max 1 ((vol fs).maxClust - 2)) 2 0 s
    (some r.1, r.2)
  else countEntries vol fs maxclust (vol fs).maxClust (vol fs).fatbase 0 0 0 s

/-- `l_getfree` behind `auto_mount`. -/
def lGetfree (vol : ℕ → Volume) (s : Disk) (fs maxclust : ℕ) : Option ℕ × Disk :=
  if s.freeClust fs ≤ (vol fs).maxClust - 2 then (some (s.freeClust fs), s)
  else
    let r := countFree vol s fs maxclust
    match r.1 with
    | none => r
    | some n =>
      if n < maxclust then
        (some n, { r.2 with
          freeClust := Function.update r.2.freeClust fs n
          fsiFlag := if (vol fs).fsType = .fat32 then Function.update r.2.fsiFlag fs true else r.2.fsiFlag })
      else (some n, r.2)

/-- `fat_freeblocks` of `fatops.c`: what the directory says is free. -/
def fatFreeblocks (vol : ℕ → Volume) (s : Disk) (part : ℕ) : ℕ × Disk :=
  let r := s.lGetfree vol part 65535
  (match r.1 with
    | some clusters => if 65535 < clusters then 65535 else clusters
    | none => 0, r.2)

variable {vol : ℕ → Volume} {s s₀ : Disk} {fs : ℕ} {b : ℕ → UInt8}

/-! ### FAT16 and FAT32 -/

theorem raw_block {q p i : ℕ} (hin : InFat vol fs q b s) (hp : p = i % 512) (hq : i / 512 = q) (ty : FsType)
    (hfit : i % 512 + ty.width ≤ 512) : ty.raw s.buf.block p = ty.raw b i := by
  have hbyte (k : ℕ) (hk : k < ty.width) : s.buf.block (p + k) = b (i + k) := by
    have hmod : (i + k) % 512 = p + k := by omega
    rw [← hmod]
    exact hin.block (i + k) (by omega)
  rw [FsType.raw, FsType.raw]
  by_cases hty : ty = .fat16
  · have hw : ty.width = 2 := if_pos hty
    rw [if_pos hty, if_pos hty, ldWord, ldWord, hbyte 1 (by omega)]
    exact congrArg (fun x : UInt8 => x.toNat + _) (hbyte 0 (by omega))
  · have hw : ty.width = 4 := if_neg hty
    rw [if_neg hty, if_neg hty, ldDword, ldDword, ldWord, ldWord, ldWord, ldWord, hbyte 1 (by omega),
      hbyte 2 (by omega), Nat.add_assoc p 2 1, hbyte 3 (by omega)]
    exact congrArg (fun x : UInt8 => x.toNat + _ + _) (hbyte 0 (by omega))

/-- How many of the first `n` entries are 0 for `l_getfree`. -/
def zeroEntries (ty : FsType) (b : ℕ → UInt8) (n : ℕ) : ℕ := Nat.count (fun c => ty.raw b (ty.width * c) = 0) n

theorem zeroEntries_succ (ty : FsType) (b : ℕ → UInt8) (n : ℕ) :
    zeroEntries ty b (n + 1) = if ty.raw b (ty.width * n) = 0 then zeroEntries ty b n + 1 else zeroEntries ty b n := by
  rw [zeroEntries, zeroEntries, Nat.count_succ]
  split <;> rfl

/-- The result with a limit; 0 is none. -/
def limited (maxclust n : ℕ) : ℕ := if maxclust = 0 then n else min maxclust n

/-- The loop over the entries goes on behind entry `i`. -/
structure Counting (vol : ℕ → Volume) (s₀ : Disk) (fs i sect f p : ℕ) (s : Disk) : Prop where
  stored : Stored vol fs (s₀.fatByte vol fs) s₀ s
  sector : sect = (vol fs).fatbase + ((vol fs).fsType.width * i + 511) / 512
  counter : f = (vol fs).fsType.width * i / 2 % 256
  place : f ≠ 0 → p = (vol fs).fsType.width * i % 512
  inFat : f ≠ 0 → InFat vol fs ((vol fs).fsType.width * i / 512) (s₀.fatByte vol fs) s

theorem width_cases (ty : FsType) : ty.width = 2 ∨ ty.width = 4 := by
  rw [FsType.width]
  split
  · exact .inl rfl
  · exact .inr rfl

/-- No entry lies in two sectors. -/
theorem fits (ty : FsType) (i : ℕ) : ty.width * i % 512 + ty.width ≤ 512 := by
  obtain hw | hw := width_cases ty <;> rw [hw] <;> omega

namespace Counting

variable {i sect f p : ℕ} (h : Counting vol s₀ fs i sect f p s)

include h

theorem offset : (if f = 0 then 0 else p) = (vol fs).fsType.width * i % 512 := by
  have hcounter := h.counter
  split
  · obtain hw | hw := width_cases (vol fs).fsType <;> rw [hw] at hcounter ⊢ <;> omega
  · next hf => exact h.place hf

/-- The window is at the sector of the entry, or is moved there; then the loop goes on. -/
theorem move (hcalm : s₀.Calm) (hlt : (vol fs).fsType.width * i / 512 < (vol fs).sectsFat) :
    let m := if f = 0 then s.moveWindow vol fs sect else (true, s)
    m.1 = true ∧ InFat vol fs ((vol fs).fsType.width * i / 512) (s₀.fatByte vol fs) m.2 ∧
      Counting vol s₀ fs (i + 1) (if f = 0 then sect + 1 else sect) ((f + (vol fs).fsType.width / 2) % 256)
        ((if f = 0 then 0 else p) + (vol fs).fsType.width) m.2 := by
  have hsector := h.sector
  have hcounter := h.counter
  have hoffset := h.offset
  obtain ⟨hok, hstored, hin⟩ : (if f = 0 then s.moveWindow vol fs sect else (true, s)).1 = true ∧
      Stored vol fs (s₀.fatByte vol fs) s₀ (if f = 0 then s.moveWindow vol fs sect else (true, s)).2 ∧
      InFat vol fs ((vol fs).fsType.width * i / 512) (s₀.fatByte vol fs)
        (if f = 0 then s.moveWindow vol fs sect else (true, s)).2 := by
    by_cases hf : f = 0
    · have hsect : sect = (vol fs).fatbase + (vol fs).fsType.width * i / 512 := by
        obtain hw | hw := width_cases (vol fs).fsType <;> rw [hw] at hcounter hsector ⊢ <;> omega
      rw [if_pos hf, hsect]
      exact (h.stored.move hlt).resolve_left fun hno => hno.2 hcalm
    · rw [if_neg hf]
      exact ⟨rfl, h.stored, h.inFat hf⟩
  refine ⟨hok, hin, hstored, ?_, ?_, fun hf => ?_, fun hf => ?_⟩
  · obtain hw | hw := width_cases (vol fs).fsType <;> rw [hw] at hcounter hsector ⊢ <;> split <;> omega
  · obtain hw | hw := width_cases (vol fs).fsType <;> rw [hw] at hcounter ⊢ <;> omega
  · rw [hoffset]
    obtain hw | hw := width_cases (vol fs).fsType <;> rw [hw] at hcounter hf ⊢ <;> omega
  · have hsame : (vol fs).fsType.width * (i + 1) / 512 = (vol fs).fsType.width * i / 512 := by
      obtain hw | hw := width_cases (vol fs).fsType <;> rw [hw] at hcounter hf ⊢ <;> omega
    rw [hsame]
    exact hin

end Counting

theorem width_lt {c : ℕ} (hty : (vol fs).fsType ≠ .fat12) (hc : c < (vol fs).maxClust) :
    (vol fs).fsType.width * c / 512 < (vol fs).sectsFat := by
  have hlt := table_lt vol fs hc
  cases htype : (vol fs).fsType with
  | fat12 => exact absurd htype hty
  | fat16 =>
    rw [htype] at hlt
    have hw : FsType.fat16.width = 2 := rfl
    rw [hw]
    dsimp only at hlt
    omega
  | fat32 =>
    rw [htype] at hlt
    have hw : FsType.fat32.width = 4 := rfl
    rw [hw]
    dsimp only at hlt
    omega

theorem countEntries_spec (hty : (vol fs).fsType ≠ .fat12) (hcalm : s₀.Calm) (maxclust : ℕ) {clust i sect f p : ℕ}
    (hi : i + clust = (vol fs).maxClust) (h : Counting vol s₀ fs i sect f p s)
    (hle : maxclust = 0 ∨ zeroEntries (vol fs).fsType (s₀.fatByte vol fs) i ≤ maxclust) :
    let r := countEntries vol fs maxclust clust sect f p (zeroEntries (vol fs).fsType (s₀.fatByte vol fs) i) s
    r.1 = some (limited maxclust (zeroEntries (vol fs).fsType (s₀.fatByte vol fs) (vol fs).maxClust)) ∧
      Stored vol fs (s₀.fatByte vol fs) s₀ r.2 := by
  induction clust generalizing i sect f p s with
  | zero =>
    obtain rfl : i = (vol fs).maxClust := hi
    refine ⟨congrArg some ?_, h.stored⟩
    rw [limited]
    split
    · rfl
    · next hne => exact (min_eq_right (hle.resolve_left hne)).symm
  | succ clust ih =>
    rw [countEntries]
    by_cases hstop : maxclust ≠ 0 ∧ maxclust ≤ zeroEntries (vol fs).fsType (s₀.fatByte vol fs) i
    · rw [if_pos hstop]
      have hmono : zeroEntries (vol fs).fsType (s₀.fatByte vol fs) i ≤
          zeroEntries (vol fs).fsType (s₀.fatByte vol fs) (vol fs).maxClust := Nat.count_monotone _ (by omega)
      refine ⟨congrArg some ?_, h.stored⟩
      rw [limited, if_neg hstop.1]
      exact (min_eq_left (hstop.2.trans hmono)).symm
    · rw [if_neg hstop]
      have hlt := width_lt (c := i) hty (by omega)
      obtain ⟨hok, hin, hnext⟩ := h.move hcalm hlt
      dsimp only
      rw [if_pos hok, raw_block hin h.offset rfl _ (fits _ i), ← zeroEntries_succ]
      refine ih (by omega) hnext ?_
      rw [zeroEntries_succ]
      split <;> omega

/-! ### FAT12 -/

/-- How many of the clusters below `n` are free. -/
def freeBelow (vol : ℕ → Volume) (s : Disk) (fs n : ℕ) : ℕ := Nat.count (fun c => s.link vol (fs, c) = .free) n

theorem freeBelow_succ (vol : ℕ → Volume) (s : Disk) (fs n : ℕ) :
    freeBelow vol s fs (n + 1) = if s.link vol (fs, n) = .free then freeBelow vol s fs n + 1 else freeBelow vol s fs n := by
  rw [freeBelow, freeBelow, Nat.count_succ]
  split <;> rfl

/-- The first two entries belong to no cluster, and neither do those behind the last one. -/
theorem link_outside {c : ℕ} (hc : c < 2 ∨ (vol fs).maxClust ≤ c) : s.link vol (fs, c) = .bad :=
  if_neg fun hand : 2 ≤ c ∧ c < (vol fs).maxClust => by omega

theorem freeBelow_two (vol : ℕ → Volume) (s : Disk) (fs : ℕ) : freeBelow vol s fs 2 = 0 := by
  rw [freeBelow_succ, freeBelow_succ, link_outside (.inl (by decide)), link_outside (.inl (by decide))]
  rfl

theorem Stored.trans {s' s'' : Disk} (h : Stored vol fs b s s') (h' : Stored vol fs (s'.fatByte vol fs) s' s'') :
    Stored vol fs b s s'' where
  sound := h'.sound
  calm := h'.calm ∘ h.calm
  mirrored hs := h'.mirrored (h.healthy hs)
  bytes i hi := (h'.bytes i hi).trans (h.bytes i hi)
  other a ha hfat := (h'.other a ha hfat).trans (h.other a ha hfat)
  lastClust := h'.lastClust.trans h.lastClust
  freeClust := h'.freeClust.trans h.freeClust
  fsiFlag := h'.fsiFlag.trans h.fsiFlag

theorem entry_fat12_lt (b : ℕ → UInt8) (c : ℕ) : FsType.fat12.entry b c < 65536 := by
  have hlow := (b (c * 3 / 2)).toNat_lt
  have hhigh := (b (c * 3 / 2 + 1)).toNat_lt
  rw [FsType.entry, ldWord]
  split <;> omega

/-- One cluster of a FAT12 is read. -/
theorem getCluster_counts (hty : (vol fs).fsType = .fat12) (hcalm : s₀.Calm) (clust : ℕ)
    (h : Stored vol fs (s₀.fatByte vol fs) s₀ s) :
    let r := s.getCluster vol fs clust
    (r.1 % 65536 = 0 ↔ s₀.link vol (fs, clust) = .free) ∧ Stored vol fs (s₀.fatByte vol fs) s₀ r.2 := by
  by_cases hc : 2 ≤ clust ∧ clust < (vol fs).maxClust
  · obtain ⟨hentry, hstored⟩ := (getCluster_spec h.sound hc).resolve_left fun hno => hno.2 (h.calm hcalm)
    have hsame : (vol fs).fsType.entry (s.fatByte vol fs) clust = (vol fs).fsType.entry (s₀.fatByte vol fs) clust :=
      FsType.entry_congr hc.2 (n := 512 * (vol fs).sectsFat) ((vol fs).table_le.trans (by omega)) h.bytes
    have hlt : (vol fs).fsType.entry (s₀.fatByte vol fs) clust < 65536 := hty ▸ entry_fat12_lt _ _
    refine ⟨?_, h.trans hstored⟩
    rw [hentry, hsame, Nat.mod_eq_of_lt hlt, link, if_pos hc, Volume.linkOf_eq_free]
  · rw [getCluster, if_neg hc, link, if_neg hc]
    exact ⟨iff_of_false (show ¬1 % 65536 = 0 by decide) (fun hbad => by cases hbad), h⟩

theorem countClusters_spec (hty : (vol fs).fsType = .fat12) (hcalm : s₀.Calm) {rounds clust : ℕ}
    (h : Stored vol fs (s₀.fatByte vol fs) s₀ s) :
    let r := countClusters vol fs rounds clust (freeBelow vol s₀ fs clust) s
    r.1 = freeBelow vol s₀ fs (clust + rounds) ∧ Stored vol fs (s₀.fatByte vol fs) s₀ r.2 := by
  induction rounds generalizing clust s with
  | zero => exact ⟨rfl, h⟩
  | succ rounds ih =>
    obtain ⟨hfree, hstored⟩ := getCluster_counts hty hcalm clust h
    have hsum : clust + (rounds + 1) = clust + 1 + rounds := by omega
    rw [countClusters, if_congr hfree rfl rfl, ← freeBelow_succ, hsum]
    exact ih hstored

/-! ### The count -/

theorem freeCount_eq (vol : ℕ → Volume) (s : Disk) (fs : ℕ) :
    freeCount (clusters vol fs) (s.link vol) = freeBelow vol s fs (vol fs).maxClust := by
  rw [freeCount, freeBelow, Nat.count_eq_card_filter_range, clusters, Finset.filter_image,
    Finset.card_image_of_injective _ (Prod.mk_right_injective fs)]
  congr 1
  ext c
  rw [Finset.mem_filter, Finset.mem_filter, Finset.mem_Ico, Finset.mem_range]
  constructor
  · exact fun hc => ⟨hc.1.2, hc.2⟩
  · intro hc
    refine ⟨⟨?_, hc.1⟩, hc.2⟩
    by_contra hlow
    have hbad : s.link vol (fs, c) = .bad := if_neg fun hand => hlow hand.1
    cases hbad.symm.trans hc.2

/-- The entries of clusters that are free, but not 0 in all of their bits. -/
def hiddenFree (vol : ℕ → Volume) (s : Disk) (fs n : ℕ) : ℕ :=
  Nat.count (fun c => s.link vol (fs, c) = .free ∧
    (vol fs).fsType.raw (s.fatByte vol fs) ((vol fs).fsType.width * c) ≠ 0) n

/-- The entries that are 0 and belong to no cluster. -/
def reservedZero (vol : ℕ → Volume) (s : Disk) (fs : ℕ) : ℕ :=
  zeroEntries (vol fs).fsType (s.fatByte vol fs) 2

theorem raw_free (hty : (vol fs).fsType ≠ .fat12) {n : ℕ} (h2 : 2 ≤ n) (hn : n < (vol fs).maxClust)
    (hraw : (vol fs).fsType.raw (s.fatByte vol fs) ((vol fs).fsType.width * n) = 0) : s.link vol (fs, n) = .free := by
  rw [link, if_pos ⟨h2, hn⟩]
  refine Volume.linkOf_eq_free.mpr ?_
  cases htype : (vol fs).fsType with
  | fat12 => exact absurd htype hty
  | fat16 =>
    rw [htype] at hraw
    exact hraw
  | fat32 =>
    rw [htype] at hraw
    have hentry : ldDword (s.fatByte vol fs) (4 * n) = 0 := hraw
    show ldDword (s.fatByte vol fs) (4 * n) % 2 ^ 28 = 0
    rw [hentry, Nat.zero_mod]

/-- The two counts differ by the entries that only one of them takes. -/
theorem zeroEntries_add (hty : (vol fs).fsType ≠ .fat12) (s : Disk) (n : ℕ) (hn : n ≤ (vol fs).maxClust) (h2 : 2 ≤ n) :
    zeroEntries (vol fs).fsType (s.fatByte vol fs) n + hiddenFree vol s fs n =
      freeBelow vol s fs n + reservedZero vol s fs := by
  induction n, h2 using Nat.le_induction with
  | base =>
    have hhidden : hiddenFree vol s fs 2 = 0 := by
      refine Nat.count_of_forall_not fun c hc hfree => ?_
      cases (link_outside (.inl hc)).symm.trans hfree.1
    rw [freeBelow_two, hhidden, reservedZero, Nat.zero_add, Nat.add_zero]
  | succ n h2 ih =>
    have hrest := ih (by omega)
    have hzero := raw_free hty (s := s) h2 hn
    rw [zeroEntries_succ, freeBelow_succ, hiddenFree, Nat.count_succ, ← hiddenFree]
    by_cases hraw : (vol fs).fsType.raw (s.fatByte vol fs) ((vol fs).fsType.width * n) = 0
    · rw [if_pos hraw, if_pos (hzero hraw), if_neg fun hand => hand.2 hraw]
      omega
    · rw [if_neg hraw]
      by_cases hfree : s.link vol (fs, n) = .free
      · rw [if_pos hfree, if_pos ⟨hfree, hraw⟩]
        omega
      · rw [if_neg hfree, if_neg fun hand => hfree hand.1]
        omega

/-- What the FAT is counted to. -/
theorem countFree_spec (hs : s.Sound vol) (hcalm : s.Calm) (fs maxclust : ℕ) :
    (s.countFree vol fs maxclust).1 = some (if (vol fs).fsType = .fat12 then freeBelow vol s fs (vol fs).maxClust
      else limited maxclust (zeroEntries (vol fs).fsType (s.fatByte vol fs) (vol fs).maxClust)) ∧
      Stored vol fs (s.fatByte vol fs) s (s.countFree vol fs maxclust).2 := by
  have hstored : Stored vol fs (s.fatByte vol fs) s s := .refl hs fs
  rw [countFree]
  by_cases hty : (vol fs).fsType = .fat12
  · obtain ⟨hcount, hkeeps⟩ := @countClusters_spec vol s s fs hty hcalm (max 1 ((vol fs).maxClust - 2)) 2 hstored
    rw [freeBelow_two] at hcount hkeeps
    have hall : freeBelow vol s fs (2 + max 1 ((vol fs).maxClust - 2)) = freeBelow vol s fs (vol fs).maxClust := by
      have hmax := (vol fs).maxClust_ge
      by_cases h2 : (vol fs).maxClust = 2
      · rw [h2]
        show freeBelow vol s fs (2 + 1) = freeBelow vol s fs 2
        rw [freeBelow_succ vol s fs 2, link_outside (.inr h2.le)]
        rfl
      · congr 1
        omega
    rw [if_pos hty, if_pos hty]
    exact ⟨congrArg some (hcount.trans hall), hkeeps⟩
  · have hstart : Counting vol s fs 0 (vol fs).fatbase 0 0 s :=
      ⟨hstored, by omega, by omega, fun h => absurd rfl h, fun h => absurd rfl h⟩
    have hzero : zeroEntries (vol fs).fsType (s.fatByte vol fs) 0 = 0 := Nat.count_zero _
    have hcount := countEntries_spec hty hcalm maxclust (Nat.zero_add _) hstart (.inr (hzero ▸ Nat.zero_le _))
    rw [hzero] at hcount
    rw [if_neg hty, if_neg hty]
    exact hcount

theorem lGetfree_found {maxclust n : ℕ} (hnone : (vol fs).maxClust - 2 < s.freeClust fs)
    (hcount : (s.countFree vol fs maxclust).1 = some n) : (s.lGetfree vol fs maxclust).1 = some n := by
  rw [lGetfree, if_neg (Nat.not_le.mpr hnone)]
  dsimp only
  rw [hcount]
  dsimp only
  split <;> rfl

/-- `f_getfree`, when it does not remember a number, is right on every FAT12, and otherwise exactly if as many of
the first two entries are 0 as there are free clusters with a bit that `get_cluster` ignores. -/
theorem fGetfree_exact_iff (hs : s.Sound vol) (hcalm : s.Calm) (hnone : (vol fs).maxClust - 2 < s.freeClust fs) :
    (s.lGetfree vol fs 0).1 = some (freeCount (clusters vol fs) (s.link vol)) ↔
      (vol fs).fsType = .fat12 ∨ reservedZero vol s fs = hiddenFree vol s fs (vol fs).maxClust := by
  obtain ⟨hcount, -⟩ := countFree_spec hs hcalm fs 0
  rw [lGetfree_found hnone hcount, freeCount_eq, Option.some_inj]
  by_cases hty : (vol fs).fsType = .fat12
  · rw [if_pos hty]
    exact iff_of_true rfl (.inl hty)
  · have hadd := zeroEntries_add hty s (vol fs).maxClust le_rfl (vol fs).maxClust_ge
    have hno : limited 0 (zeroEntries (vol fs).fsType (s.fatByte vol fs) (vol fs).maxClust) =
        zeroEntries (vol fs).fsType (s.fatByte vol fs) (vol fs).maxClust := rfl
    rw [if_neg hty, hno, or_iff_right hty]
    omega

/-- A FAT32 whose entry 1 is 0, whose cluster 2 is free with the four upper bits set, and whose other clusters are
in use. -/
def oddFat (i : ℕ) : UInt8 := if 4 ≤ i ∧ i < 11 then 0 else if i = 11 then 0xf0 else 0xff

def oddVolume : Volume where
  sectsFat := 512
  maxClust := 65528
  fatbase := 32
  database := 544
  csize := 1
  nFats := 1
  fsiSector := 1
  fatbase_pos := by decide
  nFats_pos := Nat.one_pos
  csize_pos := Nat.one_pos
  csize_le := Session.smallVolume.csize_le
  fsiSector_lt := by decide
  fats_le := by decide
  table_le := by decide
  maxClust_ge := by decide
  maxClust_le := by decide
  sectors_lt := by decide

/-- No number of free clusters is remembered. -/
def oddDisk : Disk :=
  ⟨⟨fun a i => oddFat ((a.2 - 32) * 512 + i), (0, 0), fun i => oddFat i, false⟩, fun _ => 0, fun _ => 0xffffffff,
    fun _ => false, fun _ => .ok⟩

theorem oddDisk_fatByte : oddDisk.fatByte (fun _ => oddVolume) 0 = oddFat := by
  funext i
  have hne : (0, oddVolume.fatbase + i / 512) ≠ oddDisk.buf.tag := fun heq =>
    absurd (congrArg Prod.snd heq) (Nat.ne_of_gt (Nat.add_pos_left oddVolume.fatbase_pos _))
  rw [fatByte, Cache.view_of_ne hne]
  have hplace : (32 + i / 512 - 32) * 512 + i % 512 = i := by omega
  exact congrArg oddFat hplace

theorem oddFat_link {c : ℕ} (h2 : 2 ≤ c) (hc : c < 65528) :
    oddDisk.link (fun _ => oddVolume) (0, c) = .free ↔ c = 2 := by
  rw [link, if_pos ⟨h2, hc⟩, Volume.linkOf_eq_free, oddDisk_fatByte]
  constructor
  · intro hentry
    by_contra hne
    have hbyte : oddFat (4 * c) = 0xff := by rw [oddFat, if_neg (by omega), if_neg (by omega)]
    have hlow : 255 ≤ ldDword oddFat (4 * c) % 2 ^ 28 := by
      rw [ldDword, ldWord, ldWord, hbyte]
      have h255 : (0xff : UInt8).toNat = 255 := rfl
      omega
    exact absurd (hlow.trans_eq hentry) (by decide)
  · rintro rfl
    rfl

theorem oddDisk_hidden : hiddenFree (fun _ => oddVolume) oddDisk 0 65528 = 1 := by
  have hcount : ∀ n, 3 ≤ n → n ≤ 65528 → hiddenFree (fun _ => oddVolume) oddDisk 0 n = 1 := by
    intro n hn
    induction n, hn using Nat.le_induction with
    | base =>
      intro _
      rw [hiddenFree, oddDisk_fatByte, Nat.count_succ, if_pos ⟨(oddFat_link le_rfl (by decide)).mpr rfl, by decide⟩,
        Nat.count_of_forall_not fun c hc hfree => ?_]
      cases (link_outside (.inl hc)).symm.trans hfree.1
    | succ n hn ih =>
      intro hle
      rw [hiddenFree, Nat.count_succ, if_neg fun hfree => ?_]
      · exact ih (by omega)
      · have := (oddFat_link (by omega) (by omega)).mp hfree.1
        omega
  exact hcount 65528 (by decide) le_rfl

/-- One reserved entry is taken for a free cluster, and one free cluster is missed. -/
theorem oddDisk_exact : (oddDisk.lGetfree (fun _ => oddVolume) 0 0).1 =
    some (freeCount (clusters (fun _ => oddVolume) 0) (oddDisk.link fun _ => oddVolume)) := by
  have hsound : oddDisk.Sound fun _ => oddVolume :=
    ⟨fun h => absurd h.1 (by decide), fun h => Bool.noConfusion h⟩
  have hreserved : reservedZero (fun _ => oddVolume) oddDisk 0 = 1 := by
    rw [reservedZero, oddDisk_fatByte]
    decide
  exact (fGetfree_exact_iff hsound (fun _ => rfl) (show 65528 - 2 < 0xffffffff by decide)).mpr
    (.inr (hreserved.trans oddDisk_hidden.symm))

/-- The loops find the free clusters, or at least as many as the limit. -/
theorem found_min (hexact : (vol fs).fsType = .fat12 ∨ reservedZero vol s fs = hiddenFree vol s fs (vol fs).maxClust)
    {maxclust n : ℕ} (hn : n = if (vol fs).fsType = .fat12 then freeBelow vol s fs (vol fs).maxClust
      else limited maxclust (zeroEntries (vol fs).fsType (s.fatByte vol fs) (vol fs).maxClust)) :
    min maxclust n = min maxclust (freeCount (clusters vol fs) (s.link vol)) := by
  rw [freeCount_eq]
  by_cases hty : (vol fs).fsType = .fat12
  · rw [if_pos hty] at hn
    rw [hn]
  · have hadd := zeroEntries_add hty s (vol fs).maxClust le_rfl (vol fs).maxClust_ge
    have hsame := hexact.resolve_left hty
    rw [if_neg hty, limited] at hn
    split at hn <;> omega

/-- The number that `l_getfree` remembers is the right one: it remembers none that it has cut to the limit. -/
theorem lGetfree_counted (hs : s.Sound vol) (hhealthy : s.Healthy vol) (hcounted : s.Counted vol)
    (hexact : (vol fs).fsType = .fat12 ∨ reservedZero vol s fs = hiddenFree vol s fs (vol fs).maxClust) (maxclust : ℕ) :
    (s.lGetfree vol fs maxclust).2.Counted vol := by
  obtain ⟨hcount, hstored⟩ := countFree_spec hs hhealthy.calm fs maxclust
  have hlink : Relinked vol (s.link vol) s (s.countFree vol fs maxclust).2 := hstored.relinked fun v c => by
    by_cases hv : v = fs
    · subst hv
      rw [if_pos rfl, link]
    · rw [if_neg hv]
  have hkept := hlink.counted hcounted
  rw [lGetfree]
  by_cases hcached : s.freeClust fs ≤ (vol fs).maxClust - 2
  · rw [if_pos hcached]
    exact hcounted
  · rw [if_neg hcached]
    dsimp only
    rw [hcount]
    dsimp only
    generalize hn : (if (vol fs).fsType = .fat12 then _ else _) = n
    by_cases hlt : n < maxclust
    · rw [if_pos hlt]
      intro v
      show Function.update (s.countFree vol fs maxclust).2.freeClust fs n v = 0xffffffff ∨
        Function.update (s.countFree vol fs maxclust).2.freeClust fs n v =
          freeCount (clusters vol v) ((s.countFree vol fs maxclust).2.link vol)
      by_cases hv : v = fs
      · subst hv
        rw [Function.update_self, hlink.link]
        exact .inr (by have hmin := found_min hexact hn.symm; omega)
      · rw [Function.update_of_ne hv]
        exact hkept v
    · rw [if_neg hlt]
      exact hkept

theorem fatFreeblocks_eq {n : ℕ} (hcount : (s.lGetfree vol fs 65535).1 = some n) :
    (s.fatFreeblocks vol fs).1 = min 65535 n := by
  rw [fatFreeblocks]
  dsimp only
  rw [hcount]
  dsimp only
  split <;> omega

/-- The free clusters of a volume, in a number of 16 bits: `fat_freeblocks` says how many there are, whether that is
remembered or not, and what is remembered after it is right again. -/
theorem fatFreeblocks_spec (hs : s.Sound vol) (hhealthy : s.Healthy vol) (hcounted : s.Counted vol)
    (hexact : (vol fs).fsType = .fat12 ∨ reservedZero vol s fs = hiddenFree vol s fs (vol fs).maxClust) :
    (s.fatFreeblocks vol fs).1 = min 65535 (freeCount (clusters vol fs) (s.link vol)) ∧
      (s.fatFreeblocks vol fs).2.Counted vol := by
  refine ⟨?_, lGetfree_counted hs hhealthy hcounted hexact 65535⟩
  by_cases hcached : s.freeClust fs ≤ (vol fs).maxClust - 2
  · have hmax := (vol fs).maxClust_le
    have hright := (hcounted fs).resolve_left (by omega)
    rw [← hright]
    exact fatFreeblocks_eq (by rw [lGetfree, if_pos hcached])
  · obtain ⟨hcount, -⟩ := countFree_spec hs hhealthy.calm fs 65535
    generalize hn : (if (vol fs).fsType = .fat12 then _ else _) = n at hcount
    rw [fatFreeblocks_eq (lGetfree_found (Nat.not_le.mp hcached) hcount), ← found_min hexact hn.symm]

end Disk

namespace Session

open Ff.Disk

variable {ι : Type*} [DecidableEq ι] {L : Layout ι} {chains : ι → List ℕ} {w : Session ι} {fs : ℕ}

/-- What the directory says is free after a run of calls on the files of the volume. -/
theorem run_freeblocks (calls : List (Call ι)) (h : Intact L chains w) (hfit : w.FitsRun L calls)
    (hhealthy : w.disk.Healthy L.vol) (hcounted : w.disk.Counted L.vol)
    (hexact : (L.vol fs).fsType = .fat12 ∨
      reservedZero L.vol (w.run L calls).2.disk fs = hiddenFree L.vol (w.run L calls).2.disk fs (L.vol fs).maxClust) :
    let r := (w.run L calls).2.disk.fatFreeblocks L.vol fs
    r.1 = min 65535 (freeCount (clusters L.vol fs) ((w.run L calls).2.disk.link L.vol)) ∧ r.2.Counted L.vol := by
  obtain ⟨-, hkept, chains', hintact, -, hright, -⟩ := run_keeps calls h hfit hhealthy
  exact fatFreeblocks_spec hintact.sound hkept (hright hcounted) hexact

theorem emptySession_counted : emptySession.disk.Counted smallLayout.vol := by
  intro v
  have h2 := emptySession_link v le_rfl (by decide)
  have h3 := emptySession_link v (c := 3) (by decide) (by decide)
  refine .inr ?_
  rw [freeCount_eq]
  show 2 = freeBelow smallLayout.vol emptySession.disk v 4
  rw [freeBelow_succ, freeBelow_succ, freeBelow_two, if_pos h2, if_pos h3]

theorem someCalls_freeblocks :
    ((emptySession.run smallLayout someCalls).2.disk.fatFreeblocks smallLayout.vol 0).1 =
      min 65535 (freeCount (clusters smallLayout.vol 0) ((emptySession.run smallLayout someCalls).2.disk.link smallLayout.vol)) :=
  (run_freeblocks someCalls emptySession_intact someCalls_fit emptySession_healthy emptySession_counted (.inl rfl)).1

end Session

end NoDiskEmu.Ff
