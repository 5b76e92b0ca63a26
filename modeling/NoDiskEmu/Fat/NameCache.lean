import NoDiskEmu.Fat.Directory
import NoDiskEmu.Library.Memo
import NoDiskEmu.Library.Run

/-! The cache of names is transparent: a name in it is the one that is in the file, since whatever
changes a name or frees the clusters of a file empties the cache. -/

namespace NoDiskEmu.Fat

open Library

/-- The 16 characters of the name inside of a PC64 file, for a cluster that belongs to a file. -/
def Volume.storedName (v : Volume) (c : UInt32) : Option (ℕ → UInt8) :=
  if c ∈ v.used then
    match v.readName c with
    | .name name => some (copyName name)
    | _ => none
  else none

/-- The name field of each PC64 header ends within its 17 bytes. -/
def Volume.Terminated (v : Volume) : Prop :=
  ∀ dir i f scratch, v.entry dir i = some f → f.isX00 = true → v.readCluster f.clust = some scratch →
    (List.range p00marker.length).map scratch = p00marker →
    ∃ j ≤ CBM_NAME_LENGTH, scratch (P00_CBMNAME_OFFSET + j) = 0

theorem cString_length_le (n : ℕ) (bytes : ℕ → UInt8) {j : ℕ} (hzero : bytes j = 0) :
    (cString n bytes).length ≤ j := by
  by_contra hlong
  rw [not_le] at hlong
  have htake : cString n bytes <+: (List.range n).map bytes := List.takeWhile_prefix _
  have hmem : (cString n bytes)[j] ∈ cString n bytes := List.getElem_mem hlong
  have hne := List.mem_takeWhile_imp hmem
  rw [htake.getElem hlong, List.getElem_map, List.getElem_range, hzero] at hne
  simp at hne

theorem copyName_low {name : ℕ → UInt8} {i : ℕ} (hi : i < CBM_NAME_LENGTH) : copyName name i = name i :=
  Memory.write_zero hi

@[simp] theorem copyName_copyName (name : ℕ → UInt8) : copyName (copyName name) = copyName name :=
  Memory.write_congr fun _ hi => copyName_low hi

/-- The cache has room for a name that ends in time. -/
theorem copyName_headerName {scratch : ℕ → UInt8} {j : ℕ} (hj : j ≤ CBM_NAME_LENGTH)
    (hzero : scratch (P00_CBMNAME_OFFSET + j) = 0) : copyName (headerName scratch) = headerName scratch := by
  funext i
  by_cases hi : i < CBM_NAME_LENGTH
  · exact copyName_low hi
  · rw [copyName, Memory.write_outside (.inr (by omega)), headerName]
    have hlen := cString_length_le (P00_HEADER_SIZE - P00_CBMNAME_OFFSET)
      (fun j => scratch (P00_CBMNAME_OFFSET + j)) hzero
    have hend : copyString (cString (P00_HEADER_SIZE - P00_CBMNAME_OFFSET)
        fun j => scratch (P00_CBMNAME_OFFSET + j)) i = 0 := by
      rw [copyString, List.getD_eq_default]
      omega
    simp only [hend]
    simp

theorem nextEntry_mem {slots : List (Option Filinfo)} {i j : ℕ} {f : Filinfo}
    (h : nextEntry slots i = (some f, j)) : some f ∈ slots := by
  induction slots generalizing i with
  | nil => simp [nextEntry] at h
  | cons slot slots ih =>
    cases slot with
    | none => exact List.mem_cons_of_mem _ (ih h)
    | some g =>
      rw [nextEntry] at h
      split at h
      · exact List.mem_cons_of_mem _ (ih h)
      · simp only [Prod.mk.injEq, Option.some.injEq] at h
        rw [h.1]
        exact List.mem_cons_self

theorem Volume.exists_entry {v : Volume} {dir : UInt32} {k i j : ℕ} {f : Filinfo}
    (h : nextEntry ((v.dirs dir).drop k) i = (some f, j)) : ∃ n, v.entry dir n = some f := by
  obtain ⟨n, hn, hf⟩ := List.mem_iff_getElem.mp (List.mem_of_mem_drop (nextEntry_mem h))
  refine ⟨n, ?_⟩
  rw [Volume.entry, List.getD_eq_getElem _ _ hn, hf]

theorem Volume.name_of_storedName {v : Volume} {c : UInt32} {name : ℕ → UInt8}
    (h : v.storedName c = some name) : ∃ n, v.readName c = .name n ∧ name = copyName n := by
  rw [storedName] at h
  split at h
  · split at h
    · next n hn => exact ⟨n, hn, (Option.some.inj h).symm⟩
    · simp at h
  · simp at h

theorem Volume.readName_eq_name {v : Volume} {c : UInt32} {name : ℕ → UInt8} (h : v.readName c = .name name) :
    ∃ scratch, v.readCluster c = some scratch ∧
      (List.range p00marker.length).map scratch = p00marker ∧ name = headerName scratch := by
  rw [readName] at h
  split at h
  · simp at h
  · next scratch hread =>
    split at h
    · simp at h
    · next hmarker => exact ⟨scratch, hread, not_not.mp hmarker, (Internal.name.inj h).symm⟩

/-- A name that was read belongs to a cluster of a file. -/
theorem Volume.storedName_of_read {v : Volume} (hv : v.Faithful) {dir : UInt32} {i : ℕ} {f : Filinfo}
    (hf : v.entry dir i = some f) (hx00 : f.isX00 = true) {name : ℕ → UInt8}
    (hname : v.readName f.clust = .name name) : v.storedName f.clust = some (copyName name) := by
  obtain ⟨scratch, hread, -, -⟩ := readName_eq_name hname
  have hpos : f.clust ≠ 0 := by
    intro hzero
    simp [hzero, readCluster] at hread
  have hfile : f.isDir = false := by
    rw [Filinfo.isX00, Bool.and_eq_true, Bool.not_eq_true'] at hx00
    exact hx00.1
  have hused := hv.mem_used ⟨⟨f, hf, hfile, rfl⟩, hpos⟩
  rw [storedName, if_pos hused, hname]

namespace Drive

variable {d t : Drive} {capacity : ℕ}

/-- The stores are sound, and each name in the cache is the one in the file. -/
structure Sound (d : Drive) : Prop where
  faithful : ∀ part, (d.volume part).Faithful
  cache : Memo.Sound d.cache.entries (d.volume d.cache.cachePart).storedName

def Terminated (d : Drive) : Prop := ∀ part, (d.volume part).Terminated

/-- A name in the cache is the one in the header, cut to 16 characters. -/
theorem Sound.readName_of_lookup (h : d.Sound) {part : UInt8} {clust : UInt32} {name : ℕ → UInt8}
    (hlookup : p00cacheLookup d.cache part clust = some name) :
    ∃ n, (d.volume part).readName clust = .name n ∧ name = copyName n := by
  rw [p00cacheLookup] at hlookup
  split at hlookup
  · simp at hlookup
  next hpart =>
  have hstored := h.cache.lookup hlookup
  rw [← not_not.mp hpart] at hstored
  exact Volume.name_of_storedName hstored

/-- A name in the cache is the name that would be read. -/
theorem Sound.findName_eq (h : d.Sound) (hterm : d.Terminated) {part : UInt8} {dir : UInt32} {i : ℕ}
    {f : Filinfo} (hf : (d.volume part).entry dir i = some f) (hx00 : f.isX00 = true) :
    (findName p00cacheLookup capacity d.cache (d.volume part) part f.clust).1 =
      (d.volume part).readName f.clust := by
  rw [findName]
  split
  · next name hlookup =>
    obtain ⟨n, hname, rfl⟩ := h.readName_of_lookup hlookup
    obtain ⟨scratch, hread, hmarker, rfl⟩ := Volume.readName_eq_name hname
    obtain ⟨j, hj, hzero⟩ := hterm part dir i f scratch hf hx00 hread hmarker
    rw [hname, copyName_copyName, copyName_headerName hj hzero]
  · split
    · next hname => rw [hname]
    · rfl

theorem findName_missing (cache : P00cache) (v : Volume) (part : UInt8) (clust : UInt32) :
    (findName missingLookup capacity cache v part clust).1 = v.readName clust := by
  rw [findName, missingLookup]
  dsimp only
  split
  · next hname => rw [hname]
  · rfl

theorem Sound.findName_cache (h : d.Sound) {part : UInt8} {dir : UInt32} {i : ℕ} {f : Filinfo}
    (hf : (d.volume part).entry dir i = some f) (hx00 : f.isX00 = true) :
    Sound { d with
      cache := (findName p00cacheLookup capacity d.cache (d.volume part) part f.clust).2 } := by
  refine ⟨h.faithful, ?_⟩
  rw [findName]
  split
  · exact h.cache
  split
  · next name hname =>
    have hstored := Volume.storedName_of_read (h.faithful part) hf hx00 hname
    rw [p00cacheAdd]
    split
    · exact h.cache
    dsimp only
    split
    · exact Memo.Sound.nil.add hstored
    · next hpart =>
      rw [not_not] at hpart
      refine h.cache.add ?_
      rw [← hpart]
      exact hstored
  · exact h.cache

/-- `fat_readdir` returns what it would return if the cache were empty. -/
theorem Sound.fatReaddir_eq (h : d.Sound) (hterm : d.Terminated) (capacity : ℕ) (hideExt : Bool)
    (cache : P00cache) (dh : Dh) :
    (fatReaddir p00cacheLookup capacity hideExt (d.volume dh.part) d.cache dh).1 =
        (fatReaddir missingLookup capacity hideExt (d.volume dh.part) cache dh).1 ∧
      (fatReaddir p00cacheLookup capacity hideExt (d.volume dh.part) d.cache dh).2.1 =
        (fatReaddir missingLookup capacity hideExt (d.volume dh.part) cache dh).2.1 := by
  simp only [fatReaddir]
  split
  · exact ⟨rfl, rfl⟩
  next f i hnext =>
  split
  · exact ⟨rfl, rfl⟩
  split
  · next hx00 =>
    obtain ⟨n, hf⟩ := Volume.exists_entry hnext
    rw [h.findName_eq hterm hf hx00, findName_missing]
    exact ⟨rfl, rfl⟩
  · exact ⟨rfl, rfl⟩

theorem Sound.fatReaddir_cache (h : d.Sound) (capacity : ℕ) (hideExt : Bool) (dh : Dh) :
    Sound { d with
      cache := (fatReaddir p00cacheLookup capacity hideExt (d.volume dh.part) d.cache dh).2.2 } := by
  rw [fatReaddir]
  split
  · exact h
  next f i hnext =>
  split
  · exact h
  split
  · next hx00 =>
    obtain ⟨n, hf⟩ := Volume.exists_entry hnext
    exact h.findName_cache hf hx00
  · exact h

/-- Every entry that is returned has its 8.3 name. -/
theorem realname_of_fatReaddir {lookup : P00cache → UInt8 → UInt32 → Option (ℕ → UInt8)} {hideExt : Bool}
    {v : Volume} {cache : P00cache} {dh : Dh} {dent : FatDirent}
    (h : (fatReaddir lookup capacity hideExt v cache dh).1 = some dent) : dent.realname ≠ [] := by
  rw [fatReaddir] at h
  split at h
  · simp at h
  split at h
  · simp at h
  next hname =>
  split at h
  all_goals
    rw [← Option.some.inj h]
    exact hname

theorem Sound.invalidated {volume : UInt8 → Volume} (h : ∀ part, (volume part).Faithful)
    (files : List OpenFile) : Sound ⟨volume, p00cacheInvalidate, files⟩ :=
  ⟨h, Memo.Sound.nil⟩

theorem Sound.faithful_update (h : d.Sound) (part : UInt8) {v : Volume} (hv : v.Faithful) (part' : UInt8) :
    (Function.update d.volume part v part').Faithful := by
  by_cases hpart : part' = part
  · rw [hpart, Function.update_self]
    exact hv
  · rw [Function.update_of_ne hpart]
    exact h.faithful part'

/-- A change of a volume that keeps the names which are stored in it. -/
theorem Sound.setVolume (h : d.Sound) {part : UInt8} {v : Volume} (hv : v.Faithful)
    (hkeep : ∀ c name, (d.volume part).storedName c = some name → v.storedName c = some name)
    (files : List OpenFile) : Sound { d.setVolume part v with files } := by
  refine ⟨h.faithful_update part hv, h.cache.congr fun c name hname => ?_⟩
  show (Function.update d.volume part v d.cache.cachePart).storedName c = some name
  by_cases hpart : d.cache.cachePart = part
  · rw [hpart, Function.update_self]
    rw [hpart] at hname
    exact hkeep c name hname
  · rw [Function.update_of_ne hpart]
    exact hname

theorem Sound.fatDelete (h : d.Sound) (part : UInt8) (dir : UInt32) {dent : FatDirent}
    (hreal : dent.realname ≠ []) : (d.fatDelete part dir dent).2.Sound := by
  simp only [Drive.fatDelete, if_pos hreal]
  exact invalidated (h.faithful_update part (Volume.fUnlink_faithful (h.faithful part) dir _)) _

theorem fRename_storedName (v : Volume) (dir : UInt32) (old name : List UInt8) (new : NewEntry) :
    (v.fRename dir old name new).2.storedName = v.storedName := by
  rw [Volume.fRename]
  split
  · rfl
  split
  · rfl
  split
  all_goals rfl

theorem fOpenNew_storedName (v : Volume) (dir : UInt32) (name : List UInt8) (new : NewEntry) :
    (v.fOpenNew dir name new).2.storedName = v.storedName := by
  rw [Volume.fOpenNew]
  split
  · rfl
  split
  all_goals rfl

theorem fClose_storedName {v : Volume} {c : UInt32} {name : ℕ → UInt8} (h : v.storedName c = some name)
    (dir : UInt32) (slot : ℕ) (bs : List UInt8) (chain : List UInt32) :
    (v.fClose dir slot bs chain).2.storedName c = some name := by
  by_cases hused : c ∈ v.used
  · obtain ⟨hread, hmem⟩ := Volume.fClose_keeps hused dir slot bs chain
    have hname : (v.fClose dir slot bs chain).2.readName c = v.readName c := by
      rw [Volume.readName, hread, Volume.readName]
    rw [Volume.storedName, if_pos hmem, hname]
    rwa [Volume.storedName, if_pos hused] at h
  · rw [Volume.storedName, if_neg hused] at h
    simp at h

theorem Sound.fatRename (h : d.Sound) (mode : ℕ) (part : UInt8) (dir : UInt32) (dent : FatDirent)
    (newname : Name) (new : NewEntry) (fresh : UInt32) :
    (d.fatRename mode part dir dent newname new fresh).2.Sound := by
  rw [Drive.fatRename]
  split
  · exact invalidated (h.faithful_update part (Volume.fPatch_faithful (h.faithful part) dir _ _ _ _ _)) _
  have hrename : ∀ old name, Sound (d.setVolume part ((d.volume part).fRename dir old name new).2) := by
    intro old name
    refine h.setVolume (Volume.fRename_faithful (h.faithful part) dir old name new) ?_ d.files
    intro c n hn
    rw [fRename_storedName]
    exact hn
  dsimp only
  split
  · exact hrename _ _
  · exact hrename _ _

theorem Sound.createFile (h : d.Sound) (mode : ℕ) (part : UInt8) (dir : UInt32) (name : Name)
    (type : FileType) (recordlen : ℕ) (new : NewEntry) :
    (d.createFile mode part dir name type recordlen new).2.Sound := by
  rw [Drive.createFile]
  dsimp only
  split
  · exact h
  next n hn =>
  split
  · exact h
  refine h.setVolume (Volume.fOpenNew_faithful (h.faithful part) dir n new) ?_ _
  intro c name hname
  rw [fOpenNew_storedName]
  exact hname

theorem Sound.closeFile (h : d.Sound) (k : ℕ) (chain : List UInt32) : (d.closeFile k chain).2.Sound := by
  rw [Drive.closeFile]
  split
  · exact h
  next f hf =>
  exact h.setVolume (Volume.fClose_faithful (h.faithful f.part) f.dir f.slot f.bytes chain)
    (fun c name hname => fClose_storedName hname f.dir f.slot f.bytes chain) _

/-- The drives differ in their caches at most. -/
structure SameStore (d t : Drive) : Prop where
  volume : d.volume = t.volume
  files : d.files = t.files

theorem SameStore.setVolume (h : SameStore d t) (part : UInt8) (v : Volume) {files files' : List OpenFile}
    (hfiles : files = files') (cache cache' : P00cache) :
    SameStore { d.setVolume part v with files, cache } { t.setVolume part v with files := files', cache := cache' } :=
  ⟨by simp only [Drive.setVolume, h.volume], hfiles⟩

theorem SameStore.fatDelete (h : SameStore d t) (part : UInt8) (dir : UInt32) (dent : FatDirent) :
    (d.fatDelete part dir dent).1 = (t.fatDelete part dir dent).1 ∧
      SameStore (d.fatDelete part dir dent).2 (t.fatDelete part dir dent).2 := by
  simp only [Drive.fatDelete, h.volume]
  split
  all_goals exact ⟨rfl, h.setVolume part _ h.files _ _⟩

theorem SameStore.fatRename (h : SameStore d t) (mode : ℕ) (part : UInt8) (dir : UInt32) (dent : FatDirent)
    (newname : Name) (new : NewEntry) (fresh : UInt32) :
    (d.fatRename mode part dir dent newname new fresh).1 =
        (t.fatRename mode part dir dent newname new fresh).1 ∧
      SameStore (d.fatRename mode part dir dent newname new fresh).2
        (t.fatRename mode part dir dent newname new fresh).2 := by
  simp only [Drive.fatRename, h.volume]
  split
  all_goals exact ⟨rfl, h.setVolume part _ h.files _ _⟩

theorem SameStore.createFile (h : SameStore d t) (mode : ℕ) (part : UInt8) (dir : UInt32) (name : Name)
    (type : FileType) (recordlen : ℕ) (new : NewEntry) :
    (d.createFile mode part dir name type recordlen new).1 =
        (t.createFile mode part dir name type recordlen new).1 ∧
      SameStore (d.createFile mode part dir name type recordlen new).2
        (t.createFile mode part dir name type recordlen new).2 := by
  simp only [Drive.createFile, h.volume]
  split
  · exact ⟨rfl, h⟩
  split
  · exact ⟨rfl, h⟩
  · exact ⟨rfl, h.setVolume part _ (by rw [h.files]) _ _⟩

theorem SameStore.closeFile (h : SameStore d t) (k : ℕ) (chain : List UInt32) :
    (d.closeFile k chain).1 = (t.closeFile k chain).1 ∧
      SameStore (d.closeFile k chain).2 (t.closeFile k chain).2 := by
  simp only [Drive.closeFile, h.volume, h.files]
  split
  · exact ⟨rfl, h⟩
  · exact ⟨rfl, h.setVolume _ _ rfl _ _⟩

theorem readdir_same (h : SameStore d t) (hd : d.Sound) (hterm : d.Terminated) (capacity : ℕ)
    (hideExt : Bool) (dh : Dh) :
    (d.readdir p00cacheLookup capacity hideExt dh).1 = (t.readdir missingLookup capacity hideExt dh).1 ∧
      (d.readdir p00cacheLookup capacity hideExt dh).2.1 = (t.readdir missingLookup capacity hideExt dh).2.1 ∧
      SameStore (d.readdir p00cacheLookup capacity hideExt dh).2.2
        (t.readdir missingLookup capacity hideExt dh).2.2 := by
  obtain ⟨hdent, hdh⟩ := hd.fatReaddir_eq hterm capacity hideExt t.cache dh
  rw [h.volume] at hdent hdh
  simp only [Drive.readdir, h.volume]
  exact ⟨hdent, by rw [hdh], rfl, h.files⟩

/-- A command keeps the cache sound if it does so once the entry is read. -/
theorem Sound.onEntry (hd : d.Sound) (capacity : ℕ) (hideExt : Bool) (dh : Dh)
    {act : Drive → FatDirent → FResult × Drive}
    (hact : ∀ {d : Drive} {dent : FatDirent}, d.Sound → dent.realname ≠ [] → (act d dent).2.Sound) :
    (d.onEntry p00cacheLookup capacity hideExt dh act).2.Sound := by
  have hsound : (d.readdir p00cacheLookup capacity hideExt dh).2.2.Sound :=
    hd.fatReaddir_cache capacity hideExt dh
  have hreal : ∀ {dent}, (d.readdir p00cacheLookup capacity hideExt dh).1 = some dent → dent.realname ≠ [] :=
    realname_of_fatReaddir
  rw [Drive.onEntry]
  generalize d.readdir p00cacheLookup capacity hideExt dh = r at hsound hreal ⊢
  obtain ⟨dent, i, d'⟩ := r
  cases dent with
  | none => exact hsound
  | some dent => exact hact hsound (hreal rfl)

/-- Every step keeps the cache sound. -/
theorem Sound.step (hd : d.Sound) (capacity : ℕ) (op : Op) : (d.step p00cacheLookup capacity op).2.Sound := by
  cases op with
  | readdir hideExt dh => exact hd.fatReaddir_cache capacity hideExt dh
  | create mode part dir name type recordlen new => exact hd.createFile mode part dir name type recordlen new
  | write k bs => exact ⟨hd.faithful, hd.cache⟩
  | close k chain => exact hd.closeFile k chain
  | delete hideExt dh =>
    exact hd.onEntry capacity hideExt dh fun hsound hreal => hsound.fatDelete dh.part dh.dir hreal
  | rename hideExt mode dh newname new fresh =>
    exact hd.onEntry capacity hideExt dh fun hsound _ =>
      hsound.fatRename mode dh.part dh.dir _ newname new fresh
  | init card => exact Sound.invalidated card.faithful _

/-- The cache is sound in every state of a run that begins with an initialisation. -/
theorem sound_run (capacity : ℕ) (card : Card) (files : List OpenFile) (ops : List Op) :
    (Run.run (Drive.step p00cacheLookup capacity) ⟨card.volume, p00cacheInvalidate, files⟩ ops).2.Sound := by
  have hall : Run.Always (Drive.step p00cacheLookup capacity) Sound
      ⟨card.volume, p00cacheInvalidate, files⟩ ops :=
    Run.always_of_invariant (fun _ op hd => hd.step capacity op) (Sound.invalidated card.faithful files) ops
  exact hall.last

/-- A command does the same with the cache as without it if it does so once the entry is read. -/
theorem onEntry_same (h : SameStore d t) (hd : d.Sound) (hterm : d.Terminated) (hideExt : Bool) (dh : Dh)
    {act : Drive → FatDirent → FResult × Drive}
    (hact : ∀ {d t : Drive} {dent : FatDirent}, SameStore d t →
      (act d dent).1 = (act t dent).1 ∧ SameStore (act d dent).2 (act t dent).2) :
    (d.onEntry p00cacheLookup capacity hideExt dh act).1 =
        (t.onEntry missingLookup capacity hideExt dh act).1 ∧
      SameStore (d.onEntry p00cacheLookup capacity hideExt dh act).2
        (t.onEntry missingLookup capacity hideExt dh act).2 := by
  obtain ⟨hdent, hindex, hstore⟩ := readdir_same h hd hterm capacity hideExt dh
  rw [onEntry, onEntry]
  generalize d.readdir p00cacheLookup capacity hideExt dh = r at hdent hindex hstore ⊢
  generalize t.readdir missingLookup capacity hideExt dh = q at hdent hindex hstore ⊢
  obtain ⟨dent, i, d'⟩ := r
  obtain ⟨dent', i', t'⟩ := q
  obtain rfl : dent = dent' := hdent
  obtain rfl : i = i' := hindex
  cases dent with
  | none => exact ⟨rfl, hstore⟩
  | some dent =>
    obtain ⟨hres, hafter⟩ := hact hstore
    exact ⟨by simp only [hres], hafter⟩

/-- One step with the cache and without it. -/
theorem step_same (h : SameStore d t) (hd : d.Sound) (hterm : d.Terminated) (op : Op) :
    (d.step p00cacheLookup capacity op).1 = (t.step missingLookup capacity op).1 ∧
      SameStore (d.step p00cacheLookup capacity op).2 (t.step missingLookup capacity op).2 := by
  cases op with
  | readdir hideExt dh =>
    obtain ⟨hdent, hindex, hstore⟩ := readdir_same h hd hterm capacity hideExt dh
    simp only [step]
    exact ⟨by rw [hdent, hindex], hstore⟩
  | create mode part dir name type recordlen new =>
    obtain ⟨hres, hstore⟩ := h.createFile mode part dir name type recordlen new
    simp only [step]
    exact ⟨by rw [hres], hstore⟩
  | write k bs => exact ⟨rfl, ⟨h.volume, by simp only [step, h.files]⟩⟩
  | close k chain =>
    obtain ⟨hres, hstore⟩ := h.closeFile k chain
    simp only [step]
    exact ⟨by rw [hres], hstore⟩
  | delete hideExt dh =>
    exact onEntry_same h hd hterm hideExt dh fun hstore => hstore.fatDelete dh.part dh.dir _
  | rename hideExt mode dh newname new fresh =>
    exact onEntry_same h hd hterm hideExt dh fun hstore =>
      hstore.fatRename mode dh.part dh.dir _ newname new fresh
  | init card => exact ⟨rfl, ⟨rfl, h.files⟩⟩

/-- The cache of names is transparent. Beginning with the cache empty on a sound store, every run of
scans, creations, deletions, renamings and initialisations gives the same directory entries as one in
which each lookup fails, for every size of the cache, as long as the names in the headers end. -/
theorem fatReaddir_transparent (capacity : ℕ) (card : Card) (files : List OpenFile) (ops : List Op)
    (hterm : Run.Always (step missingLookup capacity) Terminated
      ⟨card.volume, p00cacheInvalidate, files⟩ ops) :
    (Run.run (step p00cacheLookup capacity) ⟨card.volume, p00cacheInvalidate, files⟩ ops).1 =
      (Run.run (step missingLookup capacity) ⟨card.volume, p00cacheInvalidate, files⟩ ops).1 := by
  have hstep : ∀ (t d : Drive) (op : Op), SameStore d t ∧ d.Sound → t.Terminated →
      (t.step missingLookup capacity op).1 = (d.step p00cacheLookup capacity op).1 ∧
        SameStore (d.step p00cacheLookup capacity op).2 (t.step missingLookup capacity op).2 ∧
          (d.step p00cacheLookup capacity op).2.Sound := by
    rintro t d op ⟨hstore, hsound⟩ hterm
    have hd : d.Terminated := by
      rw [Terminated, hstore.volume]
      exact hterm
    obtain ⟨hreply, hafter⟩ := step_same hstore hsound hd op
    exact ⟨hreply.symm, hafter, hsound.step capacity op⟩
  have hstart : SameStore ⟨card.volume, p00cacheInvalidate, files⟩ ⟨card.volume, p00cacheInvalidate, files⟩ ∧
      Sound ⟨card.volume, p00cacheInvalidate, files⟩ :=
    ⟨⟨rfl, rfl⟩, Sound.invalidated card.faithful files⟩
  exact (Run.run_simulates _ (fun t d => SameStore d t ∧ d.Sound) hstep hstart hterm.meets).1.symm

end Drive

/-- A card with the PC64 file `A.P00`, whose name is `HELLO`. -/
def helloVolume : Volume where
  dirs dir := if dir = 0 then [some ⟨30, 0, 0, 0, [65, 46, 80, 48, 48], 2, []⟩] else []
  chains := [[2]]
  data _ i := (p00Header (copyString [72, 69, 76, 76, 79]) 0).getD i 0
  clusterSize := 512
  maxClust := 100

theorem helloVolume_starts {dir : UInt32} {i : ℕ} {c : UInt32} (h : helloVolume.Starts dir i c) :
    dir = 0 ∧ i = 0 ∧ c = 2 := by
  obtain ⟨⟨f, hf, -, rfl⟩, -⟩ := h
  by_cases hdir : dir = 0
  · subst hdir
    cases i with
    | zero =>
      rw [← Option.some.inj hf]
      exact ⟨rfl, rfl, rfl⟩
    | succ i => simp [Volume.entry, helloVolume] at hf
  · simp [Volume.entry, helloVolume, hdir] at hf

def helloCard : Card where
  volume _ := helloVolume
  faithful _ :=
    { allocated h := ⟨[2], by simp [helloVolume], by rw [(helloVolume_starts h).2.2]; rfl⟩
      distinct h h' := by
        obtain ⟨rfl, rfl, -⟩ := helloVolume_starts h
        obtain ⟨rfl, rfl, -⟩ := helloVolume_starts h'
        exact ⟨rfl, rfl⟩ }

namespace Drive

/-- The byte behind the 16 characters of a name is 0 in every cluster. -/
def Padded (d : Drive) : Prop :=
  ∀ part c, (d.volume part).data c (P00_CBMNAME_OFFSET + CBM_NAME_LENGTH) = 0

theorem Padded.terminated {d : Drive} (h : d.Padded) : d.Terminated := by
  intro part dir i f scratch _ _ hread _
  refine ⟨CBM_NAME_LENGTH, le_rfl, ?_⟩
  rw [Volume.readCluster] at hread
  split at hread
  · simp at hread
  · rw [← Option.some.inj hread]
    exact h part f.clust

theorem Padded.setVolume {d : Drive} (h : d.Padded) {part : UInt8} {v : Volume}
    (hv : ∀ c, v.data c (P00_CBMNAME_OFFSET + CBM_NAME_LENGTH) = 0) (cache : P00cache) :
    Padded { d.setVolume part v with cache } := by
  intro part' c
  show (Function.update d.volume part v part').data c _ = 0
  by_cases hpart : part' = part
  · rw [hpart, Function.update_self]
    exact hv c
  · rw [Function.update_of_ne hpart]
    exact h part' c

theorem fUnlink_data (v : Volume) (dir : UInt32) (name : List UInt8) : (v.fUnlink dir name).2.data = v.data := by
  rw [Volume.fUnlink]
  split
  · rfl
  split
  · rfl
  split
  · split
    all_goals rfl
  · rfl

theorem fRename_data (v : Volume) (dir : UInt32) (old name : List UInt8) (new : NewEntry) :
    (v.fRename dir old name new).2.data = v.data := by
  rw [Volume.fRename]
  split
  · rfl
  split
  · rfl
  split
  all_goals rfl

theorem fPatch_outside {v : Volume} {pos n j : ℕ} (hj : pos + n ≤ j) (dir : UInt32) (name : List UInt8)
    (bs : ℕ → UInt8) (fresh c : UInt32) : (v.fPatch dir name pos n bs fresh).2.data c j = v.data c j := by
  rw [Volume.fPatch]
  split
  · rfl
  split
  · rfl
  split
  · rfl
  split
  · rfl
  next i f _ _ _ _ =>
  show Function.update v.data _ _ c j = v.data c j
  generalize (if f.clust = 0 then fresh else f.clust) = clust
  by_cases hc : c = clust
  · rw [hc, Function.update_self, Memory.write_outside (.inr hj)]
  · rw [Function.update_of_ne hc]

theorem Padded.fatDelete {d : Drive} (h : d.Padded) (part : UInt8) (dir : UInt32) (dent : FatDirent) :
    (d.fatDelete part dir dent).2.Padded := by
  refine h.setVolume (fun c => ?_) _
  rw [fUnlink_data]
  exact h part c

/-- A new name inside of a PC64 file ends in time. -/
theorem Padded.fatRename {d : Drive} (h : d.Padded) (mode : ℕ) (part : UInt8) (dir : UInt32)
    (dent : FatDirent) (newname : Name) (new : NewEntry) (fresh : UInt32) :
    (d.fatRename mode part dir dent newname new fresh).2.Padded := by
  rw [Drive.fatRename]
  split
  · refine h.setVolume (fun c => ?_) _
    rw [fPatch_outside le_rfl]
    exact h part c
  · refine h.setVolume (fun c => ?_) _
    split
    all_goals
      rw [fRename_data]
      exact h part c

theorem fOpenNew_data (v : Volume) (dir : UInt32) (name : List UInt8) (new : NewEntry) :
    (v.fOpenNew dir name new).2.data = v.data := by
  rw [Volume.fOpenNew]
  split
  · rfl
  split
  all_goals rfl

theorem Padded.createFile {d : Drive} (h : d.Padded) (mode : ℕ) (part : UInt8) (dir : UInt32) (name : Name)
    (type : FileType) (recordlen : ℕ) (new : NewEntry) :
    (d.createFile mode part dir name type recordlen new).2.Padded := by
  rw [Drive.createFile]
  dsimp only
  split
  · exact h
  next n _ =>
  split
  · exact h
  refine h.setVolume (fun c => ?_) d.cache
  rw [fOpenNew_data]
  exact h part c

theorem Padded.onEntry {d : Drive} (h : d.Padded) (capacity : ℕ) (hideExt : Bool) (dh : Dh)
    {act : Drive → FatDirent → FResult × Drive}
    (hact : ∀ {d : Drive} {dent : FatDirent}, d.Padded → (act d dent).2.Padded) :
    (d.onEntry missingLookup capacity hideExt dh act).2.Padded := by
  have hread : (d.readdir missingLookup capacity hideExt dh).2.2.Padded := h
  rw [Drive.onEntry]
  split
  · next hr =>
    rw [hr] at hread
    exact hread
  · next hr =>
    rw [hr] at hread
    exact hact hread

end Drive

/-- The operation writes no clusters but for a name. -/
def Op.keepsClusters : Op → Bool
  | .close .. | .init .. => false
  | _ => true

theorem Drive.Padded.step {d : Drive} (h : d.Padded) (capacity : ℕ) {op : Op} (hop : op.keepsClusters = true) :
    (d.step missingLookup capacity op).2.Padded := by
  cases op with
  | readdir hideExt dh => exact h
  | create mode part dir name type recordlen new => exact h.createFile mode part dir name type recordlen new
  | write k bs => exact h
  | close k chain => simp [Op.keepsClusters] at hop
  | delete hideExt dh => exact h.onEntry capacity hideExt dh fun h => h.fatDelete dh.part dh.dir _
  | rename hideExt mode dh newname new fresh =>
    exact h.onEntry capacity hideExt dh fun h => h.fatRename mode dh.part dh.dir _ newname new fresh
  | init card => simp [Op.keepsClusters] at hop

/-- The name is read from the file and from the cache, the file gets the name `BYE` and is deleted. -/
def helloOps : List Op :=
  [.readdir false ⟨0, 0, 0⟩, .readdir false ⟨0, 0, 0⟩,
    .rename false 0 ⟨0, 0, 0⟩ ⟨[66, 89, 69], by decide⟩ ⟨1, false, [], 0, 0⟩ 3,
    .readdir false ⟨0, 0, 0⟩, .delete false ⟨0, 0, 0⟩, .readdir false ⟨0, 0, 0⟩]

theorem hello_transparent :
    (Run.run (Drive.step p00cacheLookup 1) ⟨helloCard.volume, p00cacheInvalidate, []⟩ helloOps).1 =
      (Run.run (Drive.step missingLookup 1) ⟨helloCard.volume, p00cacheInvalidate, []⟩ helloOps).1 := by
  have hstart : Drive.Padded ⟨helloCard.volume, p00cacheInvalidate, []⟩ := fun _ _ => rfl
  have hops : ∀ op ∈ helloOps, op.keepsClusters = true := by
    simp [helloOps, Op.keepsClusters]
  have hpadded := Run.always_of_step (I := Drive.Padded) (fun d op hd hop => Drive.Padded.step hd 1 hop) hstart
    (Run.meets_of_forall hops)
  exact Drive.fatReaddir_transparent 1 helloCard [] helloOps (hpadded.mono fun _ hd => hd.terminated)

end NoDiskEmu.Fat
