import Mathlib.Data.Finset.Card
import NoDiskEmu.Eeprom.Sectors

/-! The handles open for writing and the directory they write to. -/

namespace NoDiskEmu.Eeprom

variable {c : Config} {t t' : Table} {g g' : Places} {fh : Handle}

/-- The names of the files differ, and each file has the sectors that its size needs. -/
structure Table.Files (c : Config) (t : Table) (g : Places) : Prop where
  names : ∀ i j, t.Live i → t.Live j → (t.dir i).isListentry = false →
    (t.dir j).isListentry = false → (t.dir i).name = (t.dir j).name → i = j
  sizes : ∀ i, t.Live i → (t.dir i).isListentry = false → t.Holds g i (blocks c (t.dir i).size)

/-- A well-formed directory. -/
structure Table.Sound (c : Config) (t : Table) (g : Places) : Prop where
  links : t.Links c g
  listing : t.Listing c
  files : t.Files c g

/-- What holds of a handle open for writing, also when its file was deleted in the meantime or its
last write failed. -/
structure Handle.Writer (c : Config) (t : Table) (g : Places) (fh : Handle) : Prop where
  entry_lt : fh.entry < c.entries
  curEntry_lt : fh.curEntry < c.entries
  entryUsed : t.usedEntry fh.entry = true
  curEntryUsed : t.usedEntry fh.curEntry = true
  ownEntry : g.own fh.entry = fh.entry
  ownCurEntry : g.own fh.curEntry = fh.entry
  name : t.Live fh.entry → (t.dir fh.entry).isListentry = false
  last : ∀ i, t.Live i → g.own i = fh.entry → g.pos i ≤ g.pos fh.curEntry
  curEntryLive : t.Live fh.entry → t.Live fh.curEntry
  curSector_lt : fh.curSector < c.sectorCount
  curSoffset_lt : fh.curSoffset < c.sectorSize
  size_lt : fh.size < 65536
  holds : t.Live fh.entry → t.Holds g fh.entry (blocks c fh.size)

/-- The cursor of a handle whose file has `n` sectors. -/
structure Handle.Tied (c : Config) (t : Table) (g : Places) (fh : Handle) (n : ℕ) : Prop where
  filled : t.Live fh.curEntry → (fh.curSindex + 1) % 256 ≤ (t.dir fh.curEntry).maxSectors ∧
    ∀ j < (t.dir fh.curEntry).maxSectors,
      (t.dir fh.curEntry).sector j ≠ 255 ↔ j < (fh.curSindex + 1) % 256
  count : t.Live fh.entry → n = base (g.pos fh.curEntry) + (fh.curSindex + 1) % 256
  start : t.Live fh.entry → (fh.curSindex + 1) % 256 = 0 → g.pos fh.curEntry = 0
  offset : t.Live fh.entry → fh.curSoffset = fh.size % c.sectorSize
  sector : t.Live fh.entry → 0 < (fh.curSindex + 1) % 256 →
    (t.dir fh.curEntry).sector ((fh.curSindex + 1) % 256 - 1) = fh.curSector

namespace Handle

theorem Writer.frame (hw : fh.Writer c t g) {r : ℕ} (h : t.Frame r g t' g') (hl : t.Links c g)
    (hne : fh.entry ≠ r) : fh.Writer c t' g' := by
  have hown : g.own fh.entry ≠ r := by rwa [hw.ownEntry]
  have hcur : g.own fh.curEntry ≠ r := by rwa [hw.ownCurEntry]
  obtain ⟨hu, ho, -⟩ := h.used _ hw.entryUsed
  obtain ⟨hu', ho', hp'⟩ := h.used _ hw.curEntryUsed
  have hlive := h.live hw.entryUsed hown
  refine ⟨hw.entry_lt, hw.curEntry_lt, hu, hu', ho.trans hw.ownEntry, ho'.trans hw.ownCurEntry,
    fun hl' => ?_, fun i hi hio => ?_, fun hl' => ?_, hw.curSector_lt, hw.curSoffset_lt, hw.size_lt,
    fun hl' => h.holds hl hne (hw.holds (hlive.mp hl'))⟩
  · rw [h.same _ hw.entryUsed hown]
    exact hw.name (hlive.mp hl')
  · by_cases hused : t.usedEntry i = true
    · obtain ⟨-, hio', hip⟩ := h.used i hused
      have hir : g.own i ≠ r := by
        rw [← hio', hio]
        exact hne
      rw [hip, hp']
      exact hw.last i ((h.live hused hir).mp hi) (hio'.symm.trans hio)
    · exact absurd (hio.symm.trans (h.fresh i (by simpa using hused) hi)) hne
  · exact (h.live hw.curEntryUsed hcur).mpr (hw.curEntryLive (hlive.mp hl'))

theorem Tied.frame {n : ℕ} (ht : fh.Tied c t g n) (hw : fh.Writer c t g) {r : ℕ}
    (h : t.Frame r g t' g') (hne : fh.entry ≠ r) : fh.Tied c t' g' n := by
  have hown : g.own fh.entry ≠ r := by rwa [hw.ownEntry]
  have hcur : g.own fh.curEntry ≠ r := by rwa [hw.ownCurEntry]
  have hlive := h.live hw.entryUsed hown
  have hlive' := h.live hw.curEntryUsed hcur
  have hdir := h.same _ hw.curEntryUsed hcur
  have hpos := (h.used _ hw.curEntryUsed).2.2
  refine ⟨fun hl => ?_, fun hl => ?_, fun hl => ?_, fun hl => ht.offset (hlive.mp hl), fun hl => ?_⟩
  · rw [hdir]
    exact ht.filled (hlive'.mp hl)
  · rw [hpos]
    exact ht.count (hlive.mp hl)
  · rw [hpos]
    exact ht.start (hlive.mp hl)
  · rw [hdir]
    exact ht.sector (hlive.mp hl)

theorem Tied.pos {n : ℕ} (ht : fh.Tied c t g (n + 1)) (hlive : t.Live fh.entry) :
    0 < (fh.curSindex + 1) % 256 := by
  rw [Nat.pos_iff_ne_zero]
  intro hzero
  have hcount := ht.count hlive
  rw [ht.start hlive hzero, hzero] at hcount
  exact absurd hcount (by simp [base])

/-- A handle whose cursor is at sector `n` has these sectors. -/
theorem Tied.holds {n : ℕ} (ht : fh.Tied c t g n) (hw : fh.Writer c t g) (hs : t.Sound c g)
    (hlive : t.Live fh.entry) : t.Holds g fh.entry n := by
  have hcur := hw.curEntryLive hlive
  have hown : t.Live (g.own fh.curEntry) := by rwa [hw.ownCurEntry]
  obtain ⟨hle, hfilled⟩ := ht.filled hcur
  have hmax := hs.links.maxSectors_eq hcur
  intro k hk
  rw [ht.count hlive] at hk
  obtain ⟨hkeq, hkidx⟩ := base_hops k
  have hhops : hops k ≤ g.pos fh.curEntry := by
    by_contra hgt
    have hmono : base (g.pos fh.curEntry + 1) ≤ base (hops k) := by
      unfold base
      rw [if_neg (by omega), if_neg (by omega)]
      omega
    rw [base_succ] at hmono
    omega
  obtain ⟨e, he, heown, hepos, hnext⟩ := hs.links.chain hcur hown hhops
  have hemax := hs.links.maxSectors_eq he
  rw [hepos] at hemax
  by_cases heq : hops k = g.pos fh.curEntry
  · obtain rfl : e = fh.curEntry := hs.links.inj e _ he hcur heown (by omega)
    have hidx : index k < (fh.curSindex + 1) % 256 := by
      rw [heq] at hkeq
      omega
    refine ⟨_, fh.curEntry, ⟨hcur, by omega, rfl, (hfilled _ (by omega)).mpr hidx⟩, hw.ownCurEntry,
      heq.symm⟩
  · obtain ⟨x, hx⟩ := hs.listing.full e he (hnext (by omega)) (index k) (by omega)
    exact ⟨x, e, hx, heown.trans hw.ownCurEntry, hepos⟩

end Handle

namespace Table

theorem Files.transfer (hf : t.Files c g)
    (hsame : ∀ i, t'.Live i → (t'.dir i).isListentry = false → t.Live i ∧
      (t.dir i).isListentry = false ∧ (t'.dir i).name = (t.dir i).name ∧
      (t'.dir i).size = (t.dir i).size)
    (hholds : ∀ i n, t'.Live i → t.Holds g i n → t'.Holds g' i n) : t'.Files c g' := by
  refine ⟨fun i j hi hj hil hjl hname => ?_, fun i hi hil => ?_⟩
  · obtain ⟨hli, hli', hni, -⟩ := hsame i hi hil
    obtain ⟨hlj, hlj', hnj, -⟩ := hsame j hj hjl
    exact hf.names i j hli hlj hli' hlj' (hni.symm.trans (hname.trans hnj))
  · obtain ⟨hli, hli', -, hsize⟩ := hsame i hi hil
    rw [hsize]
    exact hholds i _ hi (hf.sizes i hli hli')

theorem Sound.create (hs : t.Sound c g) {i : ℕ} {nm : Name} (hi : i < c.entries)
    (hfree : t.usedEntry i = false)
    (hnew : ∀ j, t.Live j → (t.dir j).isListentry = false → (t.dir j).name ≠ nm) :
    ((t.take i).set i (Entry.newName nm)).Sound c (g.put i i 0) ∧
      Grows t g ((t.take i).set i (Entry.newName nm)) (g.put i i 0) := by
  have hdead := hs.links.not_live hfree
  have hgrows : Grows t g ((t.take i).set i (Entry.newName nm)) (g.put i i 0) := by
    refine ⟨fun k j x h => (listed_create hdead k j x).mpr h, fun k hk => ?_⟩
    have hne : k ≠ i := fun heq => hdead (heq ▸ hk)
    exact ⟨Places.own_put_ne hne, Places.pos_put_ne hne⟩
  refine ⟨⟨hs.links.create hi hfree Entry.isListentry_newName Entry.nextentry_newName,
    hs.listing.create hdead, ⟨fun j k hj hk hjl hkl hname => ?_, fun j hj hjl => ?_⟩⟩, hgrows⟩
  · by_cases hji : j = i <;> by_cases hki : k = i
    · exact hji.trans hki.symm
    · subst hji
      rw [Live, dir_set_ne hki] at hk
      rw [dir_set_ne hki] at hkl hname
      rw [dir_set_self, Entry.name_newName] at hname
      exact absurd hname.symm (hnew k hk hkl)
    · subst hki
      rw [Live, dir_set_ne hji] at hj
      rw [dir_set_ne hji] at hjl hname
      rw [dir_set_self, Entry.name_newName] at hname
      exact absurd hname (hnew j hj hjl)
    · rw [Live, dir_set_ne hji] at hj
      rw [Live, dir_set_ne hki] at hk
      rw [dir_set_ne hji] at hjl hname
      rw [dir_set_ne hki] at hkl hname
      exact hs.files.names j k hj hk hjl hkl hname
  · by_cases hji : j = i
    · subst hji
      rw [dir_set_self, Entry.size_newName]
      intro k hk
      have hzero : blocks c 0 = 0 := by
        have hpos := c.sectorSize_pos
        exact Nat.div_eq_of_lt (by omega)
      omega
    · rw [Live, dir_set_ne hji] at hj
      rw [dir_set_ne hji] at hjl ⊢
      exact hgrows.holds (hs.files.sizes j hj hjl)

/-- An entry is replaced by one with the same links and sectors; its name is new or unchanged and
its size is covered. -/
theorem Sound.set (hs : t.Sound c g) {i : ℕ} {e : Entry} (hdel : e.deleted = (t.dir i).deleted)
    (hlist : e.isListentry = (t.dir i).isListentry)
    (hnext : e.nextentry = (t.dir i).nextentry)
    (hsec : t.Live i → ∀ j < (t.dir i).maxSectors, e.sector j = (t.dir i).sector j)
    (hname : e.name = (t.dir i).name ∨
      ∀ j, t.Live j → (t.dir j).isListentry = false → (t.dir j).name ≠ e.name)
    (hsize : t.Live i → (t.dir i).isListentry = false → t.Holds g i (blocks c e.size)) :
    (t.set i e).Sound c g ∧ Grows t g (t.set i e) g := by
  have hsame := SameLinks.set hdel hlist hnext
  have hgrows : Grows t g (t.set i e) g :=
    ⟨fun k j x h => (listed_set hdel hlist hsec k j x).mpr h, fun _ _ => ⟨rfl, rfl⟩⟩
  refine ⟨⟨hs.links.congr hsame, hs.listing.set hdel hlist hnext hsec,
    ⟨fun j k hj hk hjl hkl hjk => ?_, fun j hj hjl => ?_⟩⟩, hgrows⟩
  · rw [hsame.live] at hj hk
    rw [hsame.isListentry] at hjl hkl
    by_cases hji : j = i <;> by_cases hki : k = i
    · exact hji.trans hki.symm
    · subst hji
      rw [dir_set_self, dir_set_ne hki] at hjk
      rcases hname with heq | hnew
      · exact hs.files.names j k hj hk hjl hkl (heq.symm.trans hjk)
      · exact absurd hjk.symm (hnew k hk hkl)
    · subst hki
      rw [dir_set_self, dir_set_ne hji] at hjk
      rcases hname with heq | hnew
      · exact hs.files.names j k hj hk hjl hkl (hjk.trans heq)
      · exact absurd hjk (hnew j hj hjl)
    · rw [dir_set_ne hji, dir_set_ne hki] at hjk
      exact hs.files.names j k hj hk hjl hkl hjk
  · rw [hsame.live] at hj
    rw [hsame.isListentry] at hjl
    by_cases hji : j = i
    · subst hji
      rw [dir_set_self]
      exact hgrows.holds (hsize hj hjl)
    · rw [dir_set_ne hji]
      exact hgrows.holds (hs.files.sizes j hj hjl)

theorem Sound.record (hs : t.Sound c g) {i j₀ x₀ : ℕ} (hj : j₀ < (t.dir i).maxSectors)
    (hx : x₀ < c.sectorCount) (hfree : t.usedSector x₀ = false)
    (hplace : t.Live i → (t.dir i).sector j₀ = 255)
    (hfront : t.Live i → ∀ k < j₀, ∃ y, t.Listed i k y) :
    ((t.mark x₀ true).set i ((t.dir i).setSector j₀ x₀)).Sound c g ∧
      Grows t g ((t.mark x₀ true).set i ((t.dir i).setSector j₀ x₀)) g := by
  have hsc : c.sectorCount < 256 := c.sectors_lt
  have hmaxle := (t.dir i).maxSectors_le
  have hsame : SameLinks t ((t.mark x₀ true).set i ((t.dir i).setSector j₀ x₀)) :=
    (SameLinks.mark x₀ true).trans (SameLinks.set (Entry.deleted_setSector (by omega))
      (Entry.isListentry_setSector (by omega)) (Entry.nextentry_setSector (by omega)))
  have hgrows : Grows t g ((t.mark x₀ true).set i ((t.dir i).setSector j₀ x₀)) g :=
    ⟨fun k j x h => (listed_record hj (by omega) hplace k j x).mpr (.inl h),
      fun _ _ => ⟨rfl, rfl⟩⟩
  refine ⟨⟨hs.links.congr hsame, hs.listing.record hj hx hfree hplace hfront,
    hs.files.transfer (fun k hk hkl => ?_) (fun k n _ h => hgrows.holds h)⟩, hgrows⟩
  rw [hsame.live] at hk
  rw [hsame.isListentry] at hkl
  refine ⟨hk, hkl, ?_⟩
  by_cases hki : k = i
  · subst hki
    have hlt : j₀ < 12 := by
      rwa [Entry.maxSectors, hkl] at hj
    rw [dir_set_self, Entry.name_setSector hlt, Entry.size_setSector (by omega)]
    exact ⟨rfl, rfl⟩
  · rw [dir_set_ne hki, dir_mark]
    exact ⟨rfl, rfl⟩

theorem Sound.extend (hs : t.Sound c g) {i n x₀ : ℕ} (hn : n < c.entries)
    (hfreen : t.usedEntry n = false) (hi : t.usedEntry i = true)
    (hown : t.usedEntry (g.own i) = true) (hlast : ∀ j, t.Live j → g.own j = g.own i → g.pos j ≤ g.pos i)
    (hlive : t.Live (g.own i) → t.Live i) (hx : x₀ < c.sectorCount)
    (hfree : t.usedSector x₀ = false)
    (hfull : t.Live i → ∀ j < (t.dir i).maxSectors, ∃ x, t.Listed i j x) :
    ((((t.take n).set i ((t.dir i).setNextentry n)).mark x₀ true).set n
        (Entry.newList.setSector 0 x₀)).Sound c (g.put n (g.own i) (g.pos i + 1)) ∧
      Grows t g ((((t.take n).set i ((t.dir i).setNextentry n)).mark x₀ true).set n
        (Entry.newList.setSector 0 x₀)) (g.put n (g.own i) (g.pos i + 1)) := by
  have hsc : c.sectorCount < 256 := c.sectors_lt
  have hdead := hs.links.not_live hfreen
  have hin : i ≠ n := by
    rintro rfl
    rw [hi] at hfreen
    cases hfreen
  have hgrows : Grows t g ((((t.take n).set i ((t.dir i).setNextentry n)).mark x₀ true).set n
      (Entry.newList.setSector 0 x₀)) (g.put n (g.own i) (g.pos i + 1)) := by
    refine ⟨fun k j x h => (listed_extend hdead (by omega) k j x).mpr (.inl h), fun k hk => ?_⟩
    have hne : k ≠ n := fun heq => hdead (heq ▸ hk)
    exact ⟨Places.own_put_ne hne, Places.pos_put_ne hne⟩
  refine ⟨⟨hs.links.extend hn hfreen hi hown hlast hlive ?_ ?_ ?_,
    hs.listing.extend hdead hin hx hfree hfull,
    hs.files.transfer (fun k hk hkl => ?_) (fun k n _ h => hgrows.holds h)⟩, hgrows⟩
  · rw [Entry.deleted_setSector (by omega), Entry.deleted_newList]
  · rw [Entry.isListentry_setSector (by omega), Entry.isListentry_newList]
  · rw [Entry.nextentry_setSector (by omega), Entry.nextentry_newList]
  · by_cases hkn : k = n
    · subst hkn
      rw [dir_set_self, Entry.isListentry_setSector (by omega), Entry.isListentry_newList] at hkl
      cases hkl
    · rw [Live, dir_set_ne hkn, dir_mark] at hk
      rw [dir_set_ne hkn, dir_mark] at hkl ⊢
      by_cases hki : k = i
      · subst hki
        rw [dir_set_self] at hk hkl ⊢
        rw [Entry.deleted_setNextentry] at hk
        rw [Entry.isListentry_setNextentry] at hkl
        exact ⟨hk, hkl, Entry.name_setNextentry, Entry.size_setNextentry⟩
      · rw [dir_set_ne hki] at hk hkl ⊢
        exact ⟨hk, hkl, rfl, rfl⟩

theorem Sound.erase (hs : t.Sound c g) {d : ℕ} (hd : t.Live d)
    (hroot : g.own d = d ∨ ¬t.Live (g.own d)) (hhead : ∀ p, t.Live p → (t.dir p).nextentry ≠ d) :
    (t.erase d).Sound c g := by
  refine ⟨hs.links.erase hroot hhead, hs.listing.erase hd,
    hs.files.transfer (fun k hk hkl => ?_) (fun k n hk hn => ?_)⟩
  · have hkd : k ≠ d := by
      rintro rfl
      rw [Table.erase, Live, dir_set_self] at hk
      cases hk
    have hdir : (t.erase d).dir k = t.dir k := by
      rw [Table.erase, dir_set_ne hkd]
      rfl
    rw [Live, hdir] at hk
    rw [hdir] at hkl ⊢
    exact ⟨hk, hkl, rfl, rfl⟩
  · refine (Frame.erase hs.links hd).holds hs.links ?_ hn
    rintro rfl
    rcases hroot with h | h
    · rw [h, Table.erase, Live, dir_set_self] at hk
      cases hk
    · by_cases hkd : g.own d = d
      · rw [hkd, Table.erase, Live, dir_set_self] at hk
        cases hk
      · rw [Table.erase, Live, dir_set_ne hkd] at hk
        exact h hk

end Table

namespace Table

/-- Every sector marked as used is listed. -/
def Exact (c : Config) (t : Table) : Prop :=
  ∀ x < c.sectorCount, t.usedSector x = true → ∃ i j, t.Listed i j x

def usedCount (c : Config) (t : Table) : ℕ :=
  ((Finset.range c.sectorCount).filter fun x => t.usedSector x = true).card

theorem usedCount_le (c : Config) (t : Table) : t.usedCount c ≤ c.sectorCount := by
  have hcard := Finset.card_filter_le (Finset.range c.sectorCount) fun x => t.usedSector x = true
  rwa [Finset.card_range] at hcard

/-- One flag more is set. -/
theorem card_filter_update {n x : ℕ} {f f' : ℕ → Bool} (hx : x < n) (hfree : f x = false)
    (h : f' = Function.update f x true) :
    ((Finset.range n).filter fun y => f' y = true).card =
      ((Finset.range n).filter fun y => f y = true).card + 1 := by
  have hset : ((Finset.range n).filter fun y => f' y = true) =
      insert x ((Finset.range n).filter fun y => f y = true) := by
    ext y
    rw [Finset.mem_insert, Finset.mem_filter, Finset.mem_filter, Finset.mem_range, h]
    by_cases hy : y = x
    · subst hy
      simp [hx]
    · rw [Function.update_of_ne hy]
      simp [hy]
  rw [hset, Finset.card_insert_of_notMem]
  simp [hfree]

/-- One sector more is used. -/
theorem usedCount_mark {x : ℕ} (hx : x < c.sectorCount) (hfree : t.usedSector x = false)
    (hused : t'.usedSector = Function.update t.usedSector x true) :
    t'.usedCount c = t.usedCount c + 1 :=
  card_filter_update hx hfree hused

/-- Used sectors are freed. -/
theorem usedCount_markAll {l : List ℕ} (hnodup : l.Nodup)
    (hl : ∀ x ∈ l, x < c.sectorCount ∧ t.usedSector x = true)
    (hused : ∀ x, t'.usedSector x = if x ∈ l then false else t.usedSector x) :
    t'.usedCount c + l.length = t.usedCount c := by
  rw [usedCount, usedCount, ← List.toFinset_card_of_nodup hnodup]
  have hsub : l.toFinset ⊆ (Finset.range c.sectorCount).filter fun y => t.usedSector y = true := by
    intro x hx
    obtain ⟨hlt, hu⟩ := hl x (List.mem_toFinset.mp hx)
    exact Finset.mem_filter.mpr ⟨Finset.mem_range.mpr hlt, hu⟩
  have hset : ((Finset.range c.sectorCount).filter fun y => t'.usedSector y = true) =
      ((Finset.range c.sectorCount).filter fun y => t.usedSector y = true) \ l.toFinset := by
    ext y
    rw [Finset.mem_sdiff, Finset.mem_filter, Finset.mem_filter, hused, List.mem_toFinset]
    by_cases hy : y ∈ l <;> simp [hy]
  rw [hset]
  exact Finset.card_sdiff_add_card_eq_card hsub

end Table

/-- `free_sectors` counts the sectors that are not used. -/
def Eefs.Counted (c : Config) (s : Eefs) : Prop :=
  s.freeSectors + (s.table c).usedCount c = c.sectorCount

theorem Eefs.Counted.lt {s : Eefs} (h : s.Counted c) : s.freeSectors < 256 := by
  have hsc : c.sectorCount < 256 := c.sectors_lt
  have h' : s.freeSectors + (s.table c).usedCount c = c.sectorCount := h
  omega

theorem Eefs.Counted.congr {s s' : Eefs} (h : s.Counted c)
    (hused : (s'.table c).usedSector = (s.table c).usedSector)
    (hcount : s'.freeSectors = s.freeSectors) : s'.Counted c := by
  rw [Counted, Table.usedCount, hused, hcount]
  exact h

theorem Eefs.Counted.mark {s s' : Eefs} (h : s.Counted c) {x : ℕ} (hx : x < c.sectorCount)
    (hfree : s.sectorUsed x = false)
    (hused : (s'.table c).usedSector = Function.update (s.table c).usedSector x true)
    (hcount : s'.freeSectors = (s.freeSectors + 255) % 256) : s'.Counted c := by
  have hsc : c.sectorCount < 256 := c.sectors_lt
  have hmark := Table.usedCount_mark hx hfree hused
  have hle := (s'.table c).usedCount_le c
  have h' : s.freeSectors + (s.table c).usedCount c = c.sectorCount := h
  rw [Counted, hmark, hcount]
  omega

end NoDiskEmu.Eeprom
