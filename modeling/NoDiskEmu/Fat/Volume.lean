import NoDiskEmu.Fat.Open
import NoDiskEmu.Library.Slots

/-! FatFs as a store: directories with their entries, and files in chains of clusters. Which free slot
of a directory and which free clusters a new file gets, and the 8.3 name that goes with a long one, is
an input of the operations. -/

namespace NoDiskEmu.Fat

open Library

def AM_RDO : UInt8 := 1
def AM_HID : UInt8 := 2
def AM_SYS : UInt8 := 4
def AM_VOL : UInt8 := 8
def AM_DIR : UInt8 := 16
def AM_ARC : UInt8 := 32

/-- `FILINFO`, the names as strings without the final 0. -/
structure Filinfo where
  fsize : UInt32
  fdate : UInt16
  ftime : UInt16
  fattrib : UInt8
  fname : List UInt8
  clust : UInt32
  lfn : List UInt8
  deriving DecidableEq

namespace Filinfo

def isDir (f : Filinfo) : Bool := f.fattrib &&& AM_DIR ≠ 0

def isReadonly (f : Filinfo) : Bool := f.fattrib &&& AM_RDO ≠ 0

def isLabel (f : Filinfo) : Bool := f.fattrib &&& AM_VOL ≠ 0

/-- The comparison of `trace_path`, with the 8.3 name and with the long one. -/
def named (name : List UInt8) (f : Filinfo) : Bool :=
  !f.isLabel &&
    (f.fname.map toupper = name.map toupper || f.lfn ≠ [] && f.lfn.map toupper = name.map toupper)

end Filinfo

/-- What FatFs decides on for a new directory entry; a name that is not stored as a long one is an 8.3
name itself. -/
structure NewEntry where
  slot : ℕ
  long : Bool
  short : List UInt8
  fdate : UInt16
  ftime : UInt16

namespace NewEntry

def fname (new : NewEntry) (name : List UInt8) : List UInt8 :=
  if new.long then new.short else name.map toupper

def lfn (new : NewEntry) (name : List UInt8) : List UInt8 := if new.long then name else []

/-- The entry of a file that has just been created. -/
def filinfo (new : NewEntry) (name : List UInt8) : Filinfo :=
  ⟨0, new.fdate, new.ftime, 0, new.fname name, 0, new.lfn name⟩

end NewEntry

/-- A mounted volume. `dirs` has the slots of the directory that begins at a cluster, 0 for the root
directory, with `none` for a deleted entry; `chains` are the clusters of the files, and `data` holds
the bytes of a cluster. -/
structure Volume where
  dirs : UInt32 → List (Option Filinfo)
  chains : List (List UInt32)
  data : UInt32 → ℕ → UInt8
  clusterSize : ℕ
  maxClust : UInt32

namespace Volume

variable {v : Volume}

def entry (v : Volume) (dir : UInt32) (i : ℕ) : Option Filinfo := (v.dirs dir).getD i none

def put (v : Volume) (dir : UInt32) (i : ℕ) (f : Option Filinfo) : Volume :=
  { v with dirs := Function.update v.dirs dir (Slots.put none (v.dirs dir) i f) }

/-- `trace_path`: the slot of the entry of that name. -/
def find (v : Volume) (dir : UInt32) (name : List UInt8) : Option (ℕ × Filinfo) := do
  let i ← (v.dirs dir).findIdx? fun slot => slot.any (Filinfo.named name)
  let f ← v.entry dir i
  pure (i, f)

/-- The clusters of files. -/
def used (v : Volume) : List UInt32 := v.chains.flatten

/-- `f_read` behind `l_opencluster`: the bytes of a cluster. -/
def readCluster (v : Volume) (clust : UInt32) : Option (ℕ → UInt8) :=
  if clust < 2 ∨ v.maxClust ≤ clust then none else some (v.data clust)

/-- The bytes `bs` in a chain of clusters, the first `size` of them in the first cluster. -/
def fill (size : ℕ) : List UInt32 → List UInt8 → (UInt32 → ℕ → UInt8) → UInt32 → ℕ → UInt8
  | [], _, data => data
  | c :: chain, bs, data =>
    fill size chain (bs.drop size)
      (Function.update data c (Memory.write (data c) 0 (min size bs.length) fun i => bs.getD i 0))

/-- `f_open` with `FA_CREATE_NEW`. The entry has no cluster before the file is closed. -/
def fOpenNew (v : Volume) (dir : UInt32) (name : List UInt8) (new : NewEntry) : FResult × Volume :=
  if (v.find dir name).isSome then (.exist, v)
  else if (v.entry dir new.slot).isSome then (.denied, v)
  else (.ok, v.put dir new.slot (some (new.filinfo name)))

/-- `f_close` of a new file: `bs` was written to it, as far as the clusters of `chain` hold it. The
entry is written to the slot in which the file was created. -/
def fClose (v : Volume) (dir : UInt32) (slot : ℕ) (bs : List UInt8) (chain : List UInt32) :
    FResult × Volume :=
  if chain.any fun c => c < 2 || v.maxClust ≤ c || c ∈ v.used then (.rwError, v)
  else
    let bs := bs.take (chain.length * v.clusterSize)
    let stored := { v with
      chains := chain :: v.chains
      data := fill v.clusterSize chain bs v.data }
    match v.entry dir slot with
    | none => (.ok, stored)
    | some f =>
      (.ok, stored.put dir slot (some { f with
        fattrib := f.fattrib ||| AM_ARC
        fsize := UInt32.ofNat bs.length
        clust := chain.headD 0 }))

/-- `f_unlink`: a directory has to be empty, the chain of a file is free afterwards. -/
def fUnlink (v : Volume) (dir : UInt32) (name : List UInt8) : FResult × Volume :=
  match v.find dir name with
  | none => (.noFile, v)
  | some (i, f) =>
    if f.isReadonly then (.denied, v)
    else if f.isDir then
      if f.clust = dir ∨ ((v.dirs f.clust).drop 2).any fun slot => slot.any fun g => !g.isLabel then
        (.dirNotEmpty, v)
      else (.ok, v.put dir i none)
    else (.ok, { v.put dir i none with chains := v.chains.filter fun chain => chain.head? ≠ some f.clust })

/-- `f_rename`: the entry goes to another slot. -/
def fRename (v : Volume) (dir : UInt32) (old name : List UInt8) (new : NewEntry) : FResult × Volume :=
  match v.find dir old with
  | none => (.noFile, v)
  | some (i, f) =>
    if (v.find dir name).isSome then (.exist, v)
    else if (v.entry dir new.slot).isSome then (.denied, v)
    else (.ok, (v.put dir new.slot (some { f with fname := new.fname name, lfn := new.lfn name })).put dir i none)

/-- `f_open` of an existing file for writing, `f_lseek`, `f_write` of `n` bytes within the first
cluster and `f_close`. A file without a cluster gets the free one `fresh`. -/
def fPatch (v : Volume) (dir : UInt32) (name : List UInt8) (pos n : ℕ) (bs : ℕ → UInt8) (fresh : UInt32) :
    FResult × Volume :=
  match v.find dir name with
  | none => (.noFile, v)
  | some (i, f) =>
    if f.isDir then (.noFile, v)
    else if f.isReadonly then (.denied, v)
    else if f.clust = 0 ∧ (fresh < 2 ∨ v.maxClust ≤ fresh ∨ fresh ∈ v.used) then (.denied, v)
    else
      let clust := if f.clust = 0 then fresh else f.clust
      (.ok, { v with
        chains := if f.clust = 0 then [fresh] :: v.chains else v.chains
        data := Function.update v.data clust (Memory.write (v.data clust) pos n bs) }.put dir i
          (some { f with
            fattrib := f.fattrib ||| AM_ARC
            fsize := max f.fsize (UInt32.ofNat (pos + n))
            clust }))

@[simp] theorem entry_put (dir dir' : UInt32) (i i' : ℕ) (f : Option Filinfo) :
    (v.put dir i f).entry dir' i' = if dir' = dir ∧ i' = i then f else v.entry dir' i' := by
  by_cases hdir : dir' = dir
  · subst hdir
    simp only [entry, put, Function.update_self, Slots.getD_put, true_and]
  · simp only [entry, put, Function.update_of_ne hdir, hdir, false_and, if_false]

theorem entry_of_find {dir : UInt32} {name : List UInt8} {i : ℕ} {f : Filinfo}
    (h : v.find dir name = some (i, f)) : v.entry dir i = some f := by
  rw [find, Option.bind_eq_bind, Option.bind_eq_some_iff] at h
  obtain ⟨j, -, h⟩ := h
  rw [Option.bind_eq_bind, Option.bind_eq_some_iff] at h
  obtain ⟨g, hg, h⟩ := h
  simp only [pure, Option.some.injEq, Prod.mk.injEq] at h
  obtain ⟨rfl, rfl⟩ := h
  exact hg

/-- A file in slot `i` of a directory that begins at cluster `c`. -/
structure Starts (v : Volume) (dir : UInt32) (i : ℕ) (c : UInt32) : Prop where
  file : ∃ f, v.entry dir i = some f ∧ f.isDir = false ∧ f.clust = c
  pos : c ≠ 0

/-- The store is sound: a file begins where a chain does, and no other file does so. -/
structure Faithful (v : Volume) : Prop where
  allocated : ∀ {dir i c}, v.Starts dir i c → ∃ chain ∈ v.chains, chain.head? = some c
  distinct : ∀ {dir i dir' i' c}, v.Starts dir i c → v.Starts dir' i' c → dir = dir' ∧ i = i'

theorem Faithful.mem_used (h : v.Faithful) {dir : UInt32} {i : ℕ} {c : UInt32} (hc : v.Starts dir i c) :
    c ∈ v.used := by
  obtain ⟨chain, hchain, hhead⟩ := h.allocated hc
  exact List.mem_flatten.mpr ⟨chain, hchain, List.mem_of_head? hhead⟩

theorem starts_put {dir dir' : UInt32} {i i' : ℕ} {f : Option Filinfo} {c : UInt32}
    (h : (v.put dir i f).Starts dir' i' c) :
    (dir' = dir ∧ i' = i ∧ ∃ g, f = some g ∧ g.isDir = false ∧ g.clust = c) ∨
      (¬(dir' = dir ∧ i' = i) ∧ v.Starts dir' i' c) := by
  obtain ⟨⟨g, hg, hfile, hclust⟩, hpos⟩ := h
  rw [entry_put] at hg
  by_cases hslot : dir' = dir ∧ i' = i
  · rw [if_pos hslot] at hg
    exact .inl ⟨hslot.1, hslot.2, g, hg, hfile, hclust⟩
  · rw [if_neg hslot] at hg
    exact .inr ⟨hslot, ⟨g, hg, hfile, hclust⟩, hpos⟩

/-- The starts of the files after one entry has gone from slot `i` to slot `k` or has got a cluster
that was free. -/
theorem Faithful.move {v' : Volume} (h : v.Faithful) (dir : UInt32) (i k : ℕ)
    (hkeep : ∀ {dir' i' c}, v'.Starts dir' i' c →
      (dir' = dir ∧ i' = k ∧ (v.Starts dir i c ∨ c ∉ v.used)) ∨
        (¬(dir' = dir ∧ i' = i) ∧ v.Starts dir' i' c))
    (hchains : ∀ {dir' i' c}, v'.Starts dir' i' c → ∃ chain ∈ v'.chains, chain.head? = some c) :
    v'.Faithful := by
  have hother : ∀ {dir' i' c}, (v.Starts dir i c ∨ c ∉ v.used) → ¬(dir' = dir ∧ i' = i) →
      ¬v.Starts dir' i' c := by
    rintro dir' i' c (hmoved | hfree) hslot hstart
    · obtain ⟨rfl, rfl⟩ := h.distinct hmoved hstart
      exact hslot ⟨rfl, rfl⟩
    · exact hfree (h.mem_used hstart)
  refine ⟨hchains, fun {dir₁ i₁ dir₂ i₂ c} h₁ h₂ => ?_⟩
  rcases hkeep h₁ with ⟨rfl, rfl, hc⟩ | ⟨hslot₁, hstart₁⟩
  · rcases hkeep h₂ with ⟨rfl, rfl, -⟩ | ⟨hslot₂, hstart₂⟩
    · exact ⟨rfl, rfl⟩
    · exact absurd hstart₂ (hother hc hslot₂)
  · rcases hkeep h₂ with ⟨rfl, rfl, hc⟩ | ⟨-, hstart₂⟩
    · exact absurd hstart₁ (hother hc hslot₁)
    · exact h.distinct hstart₁ hstart₂

theorem fOpenNew_faithful (h : v.Faithful) (dir : UInt32) (name : List UInt8) (new : NewEntry) :
    (v.fOpenNew dir name new).2.Faithful := by
  rw [fOpenNew]
  split
  · exact h
  split
  · exact h
  next hslot =>
  have hstart : ∀ {dir' i' c}, (v.put dir new.slot
      (some (new.filinfo name))).Starts dir' i' c →
      ¬(dir' = dir ∧ i' = new.slot) ∧ v.Starts dir' i' c := by
    intro dir' i' c hc
    rcases starts_put hc with ⟨-, -, g, hg, -, hclust⟩ | hold
    · rw [Option.some.injEq] at hg
      rw [← hg] at hclust
      exact absurd hclust.symm hc.pos
    · exact hold
  exact h.move dir new.slot new.slot (fun hc => .inr (hstart hc)) fun hc => h.allocated (hstart hc).2

theorem fUnlink_faithful (h : v.Faithful) (dir : UInt32) (name : List UInt8) :
    (v.fUnlink dir name).2.Faithful := by
  have hstart : ∀ {i dir' i' c}, (v.put dir i none).Starts dir' i' c →
      ¬(dir' = dir ∧ i' = i) ∧ v.Starts dir' i' c := by
    intro i dir' i' c hc
    rcases starts_put hc with ⟨-, -, g, hg, -⟩ | hold
    · simp at hg
    · exact hold
  rw [fUnlink]
  split
  · exact h
  next i f hfind =>
  split
  · exact h
  split
  · split
    · exact h
    · exact h.move dir i i (fun hc => .inr (hstart hc)) fun hc => h.allocated (hstart hc).2
  next hfile =>
  -- The file that is left does not begin where the deleted one does, and keeps its chain.
  have hkeep : ∀ {dir' i' c}, Starts { v.put dir i none with
      chains := v.chains.filter fun chain => chain.head? ≠ some f.clust } dir' i' c →
      ¬(dir' = dir ∧ i' = i) ∧ v.Starts dir' i' c := fun hc => hstart ⟨hc.file, hc.pos⟩
  refine h.move dir i i (fun hc => .inr (hkeep hc)) fun {dir' i' c} hc => ?_
  obtain ⟨hslot, hold⟩ := hkeep hc
  obtain ⟨chain, hchain, hhead⟩ := h.allocated hold
  refine ⟨chain, List.mem_filter.mpr ⟨hchain, ?_⟩, hhead⟩
  rw [hhead, decide_eq_true_eq, Ne, Option.some.injEq]
  rintro rfl
  have hdeleted : v.Starts dir i f.clust :=
    ⟨⟨f, entry_of_find hfind, Bool.not_eq_true _ ▸ hfile, rfl⟩, hc.pos⟩
  obtain ⟨hdir, hi⟩ := h.distinct hold hdeleted
  exact hslot ⟨hdir, hi⟩

theorem fRename_faithful (h : v.Faithful) (dir : UInt32) (old name : List UInt8) (new : NewEntry) :
    (v.fRename dir old name new).2.Faithful := by
  rw [fRename]
  split
  · exact h
  next i f hfind =>
  split
  · exact h
  split
  · exact h
  have hkeep : ∀ {dir' i' c}, ((v.put dir new.slot
      (some { f with fname := new.fname name, lfn := new.lfn name })).put dir i none).Starts dir' i' c →
      (dir' = dir ∧ i' = new.slot ∧ v.Starts dir i c) ∨
        (¬(dir' = dir ∧ i' = i) ∧ v.Starts dir' i' c) := by
    intro dir' i' c hc
    rcases starts_put hc with ⟨-, -, g, hg, -⟩ | ⟨hslot, hc⟩
    · simp at hg
    rcases starts_put hc with ⟨rfl, rfl, g, hg, hfile, hclust⟩ | ⟨-, hold⟩
    · rw [Option.some.injEq] at hg
      subst hg
      exact .inl ⟨rfl, rfl, ⟨f, entry_of_find hfind, hfile, hclust⟩, hc.pos⟩
    · exact .inr ⟨hslot, hold⟩
  refine h.move dir i new.slot (fun hc => ?_) fun hc => ?_
  · rcases hkeep hc with ⟨hdir, hi, hold⟩ | hold
    · exact .inl ⟨hdir, hi, .inl hold⟩
    · exact .inr hold
  · rcases hkeep hc with ⟨-, -, hold⟩ | ⟨-, hold⟩
    · exact h.allocated hold
    · exact h.allocated hold

theorem Starts.congr {w : Volume} (hdirs : w.dirs = v.dirs) {dir : UInt32} {i : ℕ} {c : UInt32}
    (h : w.Starts dir i c) : v.Starts dir i c := by
  obtain ⟨hfile, hpos⟩ := h
  rw [entry, hdirs] at hfile
  exact ⟨hfile, hpos⟩

theorem Faithful.grow (h : v.Faithful) {w : Volume} (hdirs : w.dirs = v.dirs)
    (hchains : v.chains ⊆ w.chains) : w.Faithful := by
  refine ⟨fun hc => ?_, fun h₁ h₂ => h.distinct (h₁.congr hdirs) (h₂.congr hdirs)⟩
  obtain ⟨chain, hchain, hhead⟩ := h.allocated (hc.congr hdirs)
  exact ⟨chain, hchains hchain, hhead⟩

/-- A file that is written keeps its first cluster or gets one that was free. -/
theorem Faithful.store (h : v.Faithful) {w : Volume} (hdirs : w.dirs = v.dirs)
    (hchains : v.chains ⊆ w.chains) {dir : UInt32} {i : ℕ} {g : Filinfo}
    (hclust : g.clust ≠ 0 → v.Starts dir i g.clust ∨
      g.clust ∉ v.used ∧ ∃ chain ∈ w.chains, chain.head? = some g.clust) :
    (w.put dir i (some g)).Faithful := by
  refine h.move dir i i (fun {dir' i' c} hc => ?_) fun {dir' i' c} hc => ?_
  · rcases starts_put hc with ⟨rfl, rfl, g', hg, -, rfl⟩ | ⟨hslot, hold⟩
    · rw [Option.some.injEq] at hg
      subst hg
      exact .inl ⟨rfl, rfl, (hclust hc.pos).imp_right And.left⟩
    · exact .inr ⟨hslot, hold.congr hdirs⟩
  · rcases starts_put hc with ⟨rfl, rfl, g', hg, -, rfl⟩ | ⟨-, hold⟩
    · rw [Option.some.injEq] at hg
      subst hg
      rcases hclust hc.pos with hold | ⟨-, hchain⟩
      · obtain ⟨chain, hchain, hhead⟩ := h.allocated hold
        exact ⟨chain, hchains hchain, hhead⟩
      · exact hchain
    · exact (h.grow hdirs hchains).allocated hold

theorem fClose_faithful (h : v.Faithful) (dir : UInt32) (slot : ℕ) (bs : List UInt8)
    (chain : List UInt32) : (v.fClose dir slot bs chain).2.Faithful := by
  rw [fClose]
  split
  · exact h
  next hfresh =>
  dsimp only
  split
  · exact h.grow rfl (List.subset_cons_self _ _)
  · apply h.store
    · rfl
    · exact List.subset_cons_self _ _
    intro hclust
    right
    cases chain with
    | nil => exact absurd rfl hclust
    | cons c rest =>
      refine ⟨fun hused => hfresh ?_, c :: rest, List.mem_cons_self, rfl⟩
      rw [List.any_cons, Bool.or_eq_true]
      left
      simpa using .inr hused

theorem fPatch_faithful (h : v.Faithful) (dir : UInt32) (name : List UInt8) (pos n : ℕ) (bs : ℕ → UInt8)
    (fresh : UInt32) : (v.fPatch dir name pos n bs fresh).2.Faithful := by
  rw [fPatch]
  split
  · exact h
  next i f hfind =>
  split
  · exact h
  next hdir =>
  split
  · exact h
  split
  · exact h
  next hfresh =>
  by_cases hzero : f.clust = 0
  · simp only [hzero, if_true]
    apply h.store
    · rfl
    · exact List.subset_cons_self _ _
    intro _
    right
    exact ⟨fun hused => hfresh ⟨hzero, .inr (.inr hused)⟩, [fresh], List.mem_cons_self, rfl⟩
  · simp only [hzero, if_false]
    apply h.store
    · rfl
    · exact List.Subset.refl _
    intro _
    left
    exact ⟨⟨f, entry_of_find hfind, Bool.not_eq_true _ ▸ hdir, rfl⟩, hzero⟩

theorem fill_outside {c : UInt32} {size : ℕ} {chain : List UInt32} (hc : c ∉ chain) (bs : List UInt8)
    (data : UInt32 → ℕ → UInt8) : fill size chain bs data c = data c := by
  induction chain generalizing bs data with
  | nil => rfl
  | cons d chain ih =>
    rw [List.mem_cons, not_or] at hc
    rw [fill, ih hc.2, Function.update_of_ne hc.1]

/-- A file that is closed leaves the clusters of the other files as they are. -/
theorem fClose_keeps {c : UInt32} (hc : c ∈ v.used) (dir : UInt32) (slot : ℕ) (bs : List UInt8)
    (chain : List UInt32) :
    (v.fClose dir slot bs chain).2.readCluster c = v.readCluster c ∧
      c ∈ (v.fClose dir slot bs chain).2.used := by
  have hgrown : c ∈ chain ++ v.used := List.mem_append_right _ hc
  rw [fClose]
  split
  · exact ⟨rfl, hc⟩
  next hfresh =>
  have hchain : c ∉ chain := by
    intro hmem
    refine hfresh (List.any_eq_true.mpr ⟨c, hmem, ?_⟩)
    simp [hc]
  dsimp only
  split
  · exact ⟨by simp only [readCluster, fill_outside hchain], hgrown⟩
  · exact ⟨by simp only [readCluster, put, fill_outside hchain], hgrown⟩

end Volume

end NoDiskEmu.Fat
