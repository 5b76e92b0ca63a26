import NoDiskEmu.Eeprom.Read
import NoDiskEmu.Eeprom.Refill

/-! What the functions of `eeprom-fs.c` touch when the EEPROM holds arbitrary bytes, and in which
runs of them all of it lies in the file system. -/

namespace NoDiskEmu.Eeprom

open Library Library.Bitmap Library.Run

/-- What a function touches: a bit of `used_sectors`, a directory entry or its bit of `used_entries`,
and a block of the data area. -/
inductive Access where
  | sector (x : ℕ)
  | entry (i : ℕ)
  | block (a n : ℕ)

/-- The access stays inside the bitmaps, the directory and the EEPROMFS area. -/
def Access.Ok (c : Config) : Access → Prop
  | .sector x => x < c.sectorCount
  | .entry i => i < c.entries
  | .block a n => c.offset ≤ a ∧ a + n ≤ c.offset + c.size

/-- The bits that a search for a clear bit looks at. -/
def scanned (bitmap : ℕ → UInt8) (count start : ℕ) : ℕ → ℕ → List ℕ
  | 0, _ => []
  | fuel + 1, cur =>
    cur ::
      if getBit bitmap cur then
        let next := if (cur + 1) % 256 = count then 0 else (cur + 1) % 256
        if next = start then [] else scanned bitmap count start fuel next
      else []

namespace Eefs

variable (c : Config)

/-- `eepromfs_init`: every entry is read, and an entry in use is marked with its sectors. -/
def initAccesses (s : Eefs) : List Access :=
  (List.range c.entries).flatMap fun i =>
    .entry i :: if (s.entry c i).deleted then [] else .entry i :: (s.entry c i).listed.map .sector

/-- `find_entry` with `n` entries to go. -/
def findAccesses (s : Eefs) (name : Name) : ℕ → List Access
  | 0 => []
  | n + 1 =>
    let idx := c.entries - (n + 1)
    .entry idx ::
      if (s.entry c idx).deleted || (s.entry c idx).isListentry then findAccesses s name n
      else if (s.entry c idx).name = name then []
      else findAccesses s name n

/-- `next_free_entry`. -/
def freeEntryAccesses (s : Eefs) (start : ℕ) : List Access :=
  (scanned s.usedEntries c.entries start 257 start).map .entry ++
    match scanFree s.usedEntries c.entries start 257 start with
    | none => []
    | some cur => if cur = 0xff then [] else [.entry cur]

/-- The loop of an append-open. -/
def lastEntryAccesses : ℕ → Eefs → List Access
  | 0, _ => []
  | fuel + 1, s =>
    if s.buffer.nextentry ≠ 0xff then
      .entry s.buffer.nextentry :: lastEntryAccesses fuel (s.readEntry c s.buffer.nextentry)
    else []

/-- `eepromfs_open`. -/
def openAccesses (s : Eefs) (name : Name) (mode : Mode) : List Access :=
  let r := s.findEntry c name
  s.findAccesses c name c.entries ++
    match mode with
    | .write =>
      if r.1 ≠ 0xff then []
      else
        let e := (r.2.nextFreeEntry c 0).1
        r.2.freeEntryAccesses c 0 ++ if e = 0xff then [] else [.entry e]
    | .append => if r.1 = 0xff then [] else r.2.lastEntryAccesses c 257
    | .read => []

/-- The part of `eepromfs_read` that moves to the next sector. -/
def advanceAccesses (s : Eefs) (fh : Handle) : List Access :=
  .entry fh.curEntry ::
    if (s.entry c fh.curEntry).maxSectors ≤ (fh.curSindex + 1) % 256 then
      [.entry (s.entry c fh.curEntry).nextentry]
    else []

/-- The loop of `eepromfs_read`. -/
def readLoopAccesses : ℕ → Eefs → Handle → ℕ → List Access
  | 0, _, _, _ => []
  | fuel + 1, s, fh, length =>
    if length = 0 then []
    else
      let n := (s.readChunk c fh length).length
      let fh' := { fh with
        curOffset := (fh.curOffset + n) % 65536
        curSoffset := (fh.curSoffset + n) % c.sectorSize }
      .block (c.dataOffset + (c.sectorSize * fh.curSector + fh.curSoffset)) n ::
        if fh'.curOffset ≠ fh'.size ∧ fh'.curSoffset = 0 then
          s.advanceAccesses c fh' ++
            readLoopAccesses fuel (s.advance c fh').2 (s.advance c fh').1 (length - n)
        else readLoopAccesses fuel s fh' (length - n)

/-- `eepromfs_read`. -/
def readAccesses (s : Eefs) (fh : Handle) (length : ℕ) : List Access :=
  if fh.filemode ≠ .read then []
  else
    let length := min length (fh.size - fh.curOffset)
    s.readLoopAccesses c length fh length

/-- The loop of `eepromfs_delete` at entry `diridx`, which the buffer holds. -/
def deleteChainAccesses : ℕ → Eefs → ℕ → List Access
  | 0, _, _ => []
  | fuel + 1, s, diridx =>
    let next := s.buffer.nextentry
    let erased := ((s.markSectors s.buffer.leading false).setBuffer Entry.erased).writeEntry c diridx
    s.buffer.leading.map .sector ++ .entry diridx ::
      if next = 0xff then []
      else .entry next :: deleteChainAccesses fuel (erased.readEntry c next) next

/-- `eepromfs_delete`. -/
def deleteAccesses (s : Eefs) (name : Name) : List Access :=
  let r := s.findEntry c name
  s.findAccesses c name c.entries ++
    if r.1 = 0xff then [] else r.2.deleteChainAccesses c 257 r.1

end Eefs

/-- A call of a function that has to bear any EEPROM. -/
inductive Use where
  | init
  | open (h : ℕ) (name : Name) (mode : Mode)
  | read (h length : ℕ)
  | delete (name : Name)

/-- What a call touches, and whether it comes to its end. -/
structure Trace where
  accesses : List Access
  ends : Bool

/-- The call ends and touches only what belongs to the file system. -/
def Trace.Safe (c : Config) (t : Trace) : Prop := t.ends = true ∧ ∀ a ∈ t.accesses, a.Ok c

/-- The file system and the handles of its callers. -/
structure Users where
  fs : Eefs
  handle : ℕ → Handle

namespace Users

variable (c : Config)

/-- A read ends when it has read all that it was asked for. -/
def step (m : Users) : Use → Trace × Users
  | .init => (⟨m.fs.initAccesses c, true⟩, { m with fs := m.fs.eepromfsInit c })
  | .open h name mode =>
    let r := m.fs.eepromfsOpen c name mode
    (⟨m.fs.openAccesses c name mode, !r.2.2.hung⟩, ⟨r.2.2, Function.update m.handle h r.2.1⟩)
  | .read h length =>
    let fh := m.handle h
    let r := m.fs.eepromfsRead c fh length
    (⟨m.fs.readAccesses c fh length,
        fh.filemode ≠ .read || r.2.1.length = min length (fh.size - fh.curOffset)⟩,
      ⟨r.2.2.2, Function.update m.handle h r.2.2.1⟩)
  | .delete name =>
    let r := m.fs.eepromfsDelete c name
    (⟨m.fs.deleteAccesses c name, !r.2.hung⟩, { m with fs := r.2 })

/-- Any EEPROM and any values of the variables; no handle is open, and no loop hangs so far. -/
def start (s : Eefs) : Users := ⟨{ s with hung := false }, fun _ => Handle.zero⟩

end Users

/-- The entries from `i` on along `nextentry`: all in the directory, and the last one has no
successor. -/
inductive Linked (c : Config) (dir : ℕ → Entry) : ℕ → List ℕ → Prop
  | last {i : ℕ} (hi : i < c.entries) (hnext : (dir i).nextentry = 0xff) : Linked c dir i [i]
  | next {i : ℕ} {es : List ℕ} (hi : i < c.entries) (hnext : (dir i).nextentry ≠ 0xff)
      (hrest : Linked c dir (dir i).nextentry es) : Linked c dir i (i :: es)

/-- Entry `j` is the successor of entry `i`. -/
def Succ (dir : ℕ → Entry) (i j : ℕ) : Prop := (dir i).nextentry = j ∧ j ≠ 0xff

/-- The entries from `i` on, which may lead back to one of them, are in the directory, and list
sectors that exist. -/
def Erasable (c : Config) (dir : ℕ → Entry) (i : ℕ) : Prop :=
  ∀ e, Relation.ReflTransGen (Succ dir) i e → e < c.entries ∧ ∀ x ∈ (dir e).leading, x < c.sectorCount

/-- The place of a sector number, by its entry and the index there, that follows on `p`. -/
def nextPlace (dir : ℕ → Entry) (p : ℕ × ℕ) : ℕ × ℕ :=
  if (dir p.1).maxSectors ≤ p.2 + 1 then ((dir p.1).nextentry, 0) else (p.1, p.2 + 1)

namespace Handle

/-- The place of the number of the sector that is `k` sectors ahead. -/
def place (dir : ℕ → Entry) (fh : Handle) (k : ℕ) : ℕ × ℕ :=
  (nextPlace dir)^[k] (fh.curEntry, fh.curSindex)

/-- The sector that is `k` sectors ahead. -/
def sectorAt (dir : ℕ → Entry) (fh : Handle) (k : ℕ) : ℕ :=
  if k = 0 then fh.curSector else (dir (fh.place dir k).1).sector (fh.place dir k).2

/-- The next `n` bytes lie in the area, and the sector numbers on the way in the directory: a read
that ends with a sector goes on to the next one, unless it is at the end of the file. -/
structure Within (c : Config) (dir : ℕ → Entry) (fh : Handle) (n : ℕ) : Prop where
  entries : ∀ k, c.sectorSize * (k + 1) ≤ fh.curSoffset + n →
    fh.curOffset + c.sectorSize * (k + 1) < fh.size + fh.curSoffset →
      (fh.place dir k).1 < c.entries ∧ (fh.place dir (k + 1)).1 < c.entries
  bytes : ∀ k, 0 < n → c.sectorSize * k < fh.curSoffset + n →
    c.dataOffset + (c.sectorSize * fh.sectorAt dir k +
      min (fh.curSoffset + n - c.sectorSize * k) c.sectorSize) ≤ c.offset + c.size

end Handle

/-- Entry `i` is the one that a search for `name` finds. -/
def Eefs.IsFirst (c : Config) (s : Eefs) (i : ℕ) (name : Name) : Prop :=
  s.IsFile c i name ∧ ∀ j < i, ¬s.IsFile c j name

/-- What a call needs of the EEPROM. -/
def Users.Trusts (c : Config) (m : Users) : Use → Prop
  | .init => ∀ i, m.fs.Live c i → ∀ x ∈ (m.fs.entry c i).listed, x < c.sectorCount
  | .open _ name .append => ∀ i, m.fs.IsFirst c i name → ∃ es, Linked c (m.fs.entry c) i es
  | .open _ _ _ => True
  | .read h length => (m.handle h).filemode = .read →
      (m.handle h).Within c (m.fs.entry c) (min length ((m.handle h).size - (m.handle h).curOffset))
  | .delete name => ∀ i, m.fs.IsFirst c i name → Erasable c (m.fs.entry c) i

variable {c : Config} {s : Eefs}

section Init

theorem hung_markSectors (sectors : List ℕ) (used : Bool) :
    (s.markSectors sectors used).hung = s.hung := by
  induction sectors generalizing s with
  | nil => rfl
  | cons sector sectors ih => exact ih

theorem hung_foldl_initEntry (l : List ℕ) : (l.foldl (Eefs.initEntry c) s).hung = s.hung := by
  induction l generalizing s with
  | nil => rfl
  | cons i l ih =>
    rw [List.foldl_cons, ih, Eefs.initEntry]
    split
    · rfl
    · rw [hung_markSectors]
      rfl

theorem hung_init (c : Config) (s : Eefs) : (s.eepromfsInit c).hung = s.hung := by
  rw [Eefs.eepromfsInit_eq, hung_foldl_initEntry]
  rfl

theorem entry_init (c : Config) (s : Eefs) : (s.eepromfsInit c).entry c = s.entry c := by
  funext i k
  rw [Eefs.entry, Eefs.eepromfsInit_eq, (Eefs.foldl_initEntry c _ c.entries le_rfl).1, Eefs.entry]
  rfl

end Init

section Find

theorem findEntryFrom_first (name : Name) {n : ℕ} (hn : n ≤ c.entries) {j : ℕ}
    (hlo : c.entries - n ≤ j) (hj : j < (Eefs.findEntryFrom c name n s).1) : ¬s.IsFile c j name := by
  induction n generalizing s with
  | zero =>
    intro hfile
    have hlt := hfile.1.1
    omega
  | succ n ih =>
    -- a passed entry is not the first one of the file
    have hpass : ¬s.IsFile c (c.entries - (n + 1)) name →
        j < (Eefs.findEntryFrom c name n (s.readEntry c (c.entries - (n + 1)))).1 →
        ¬s.IsFile c j name := by
      intro hnot hj
      by_cases heq : j = c.entries - (n + 1)
      · rwa [heq]
      · exact ih (s := s.readEntry c (c.entries - (n + 1))) (by omega) (by omega) hj
    rw [Eefs.findEntryFrom] at hj
    split at hj
    · next hskip =>
      refine hpass (fun h => ?_) hj
      simp [h.1.2, h.2.1] at hskip
    · split at hj
      · exact absurd hj (by show ¬j < c.entries - (n + 1); omega)
      · next hname => exact hpass (fun h => hname h.2.2) hj

theorem findEntry_first (c : Config) (s : Eefs) (name : Name) :
    ∃ buffer, (s.findEntry c name).2 = s.setBuffer buffer ∧
      ((s.findEntry c name).1 = 255 ∧ (∀ i, ¬s.IsFirst c i name) ∨
        s.IsFirst c (s.findEntry c name).1 name ∧ buffer = s.entry c (s.findEntry c name).1) := by
  obtain ⟨buffer, hs, ⟨h255, hnone⟩ | ⟨hfile, hbuffer⟩⟩ := Eefs.findEntry_cases c s name
  · exact ⟨buffer, hs, .inl ⟨h255, fun i h => hnone i h.1⟩⟩
  · exact ⟨buffer, hs, .inr ⟨⟨hfile, fun j hj => findEntryFrom_first name le_rfl (by omega) hj⟩, hbuffer⟩⟩

theorem Eefs.IsFirst.unique {i j : ℕ} {name : Name} (h : s.IsFirst c i name)
    (h' : s.IsFirst c j name) : i = j := by
  rcases Nat.lt_trichotomy i j with hlt | heq | hgt
  · exact absurd h.1 (h'.2 i hlt)
  · exact heq
  · exact absurd h'.1 (h.2 j hgt)

theorem findAccesses_ok (name : Name) {n : ℕ} (hn : n ≤ c.entries) :
    ∀ a ∈ s.findAccesses c name n, a.Ok c := by
  induction n with
  | zero => simp [Eefs.findAccesses]
  | succ n ih =>
    have hrest := ih (by omega)
    rw [Eefs.findAccesses]
    intro a ha
    rcases List.mem_cons.mp ha with rfl | hmem
    · show c.entries - (n + 1) < c.entries
      omega
    · split at hmem
      · exact hrest a hmem
      · split at hmem
        · simp at hmem
        · exact hrest a hmem

theorem scanned_lt {bitmap : ℕ → UInt8} {count start fuel cur : ℕ} (hcount : count < 256)
    (hcur : cur < count) : ∀ i ∈ scanned bitmap count start fuel cur, i < count := by
  induction fuel generalizing cur with
  | zero => simp [scanned]
  | succ fuel ih =>
    rw [scanned]
    have hnext : (if (cur + 1) % 256 = count then 0 else (cur + 1) % 256) < count := by
      split <;> omega
    generalize (if (cur + 1) % 256 = count then 0 else (cur + 1) % 256) = next at hnext ⊢
    intro i hi
    rcases List.mem_cons.mp hi with rfl | hmem
    · exact hcur
    · split at hmem
      · dsimp only at hmem
        split at hmem
        · simp at hmem
        · exact ih hnext i hmem
      · simp at hmem

theorem freeEntryAccesses_ok : ∀ a ∈ s.freeEntryAccesses c 0, a.Ok c := by
  intro a ha
  rw [Eefs.freeEntryAccesses, List.mem_append] at ha
  rcases ha with hscan | hset
  · obtain ⟨i, hi, rfl⟩ := List.mem_map.mp hscan
    exact scanned_lt c.entries_lt c.entries_pos i hi
  · obtain ⟨r, hr, ⟨hlt, -⟩ | ⟨rfl, -⟩⟩ := scanFree_cases s.usedEntries c.entries_lt c.entries_pos
    · have hent := c.entries_lt
      rw [hr] at hset
      dsimp only at hset
      rw [if_neg (by omega), List.mem_singleton] at hset
      rw [hset]
      exact hlt
    · rw [hr] at hset
      simp at hset

end Find

namespace Linked

variable {dir : ℕ → Entry} {i : ℕ} {es : List ℕ}

theorem head (h : Linked c dir i es) : i < c.entries := by
  cases h with
  | last hi => exact hi
  | next hi => exact hi

theorem lt (h : Linked c dir i es) : ∀ e ∈ es, e < c.entries := by
  induction h with
  | last hi => simpa using hi
  | next hi _ _ ih => simpa using ⟨hi, ih⟩

/-- The way from an entry to the end is determined, so that each entry on it is closer to it. -/
theorem unique {es' : List ℕ} (h : Linked c dir i es) (h' : Linked c dir i es') : es = es' := by
  induction h generalizing es' with
  | last _ hnext =>
    cases h' with
    | last => rfl
    | next _ hne => exact absurd hnext hne
  | next _ hne _ ih =>
    cases h' with
    | last _ hnext => exact absurd hnext hne
    | next _ _ hrest => rw [ih hrest]

theorem tail (h : Linked c dir i es) : ∀ e ∈ es, ∃ es', Linked c dir e es' ∧ es'.length ≤ es.length := by
  induction h with
  | @last i hi hnext =>
    intro e he
    obtain rfl := List.mem_singleton.mp he
    exact ⟨[e], .last hi hnext, le_rfl⟩
  | @next i es hi hnext hrest ih =>
    intro e he
    rcases List.mem_cons.mp he with rfl | hmem
    · exact ⟨_, .next hi hnext hrest, le_rfl⟩
    · obtain ⟨es', hes', hle⟩ := ih e hmem
      exact ⟨es', hes', hle.trans (by simp)⟩

theorem nodup (h : Linked c dir i es) : es.Nodup := by
  induction h with
  | last => simp
  | @next i es hi hnext hrest ih =>
    refine List.nodup_cons.mpr ⟨fun hmem => ?_, ih⟩
    -- an entry that comes again would be as far from the end as before
    obtain ⟨es', hes', hle⟩ := hrest.tail i hmem
    have heq := hes'.unique (.next hi hnext hrest)
    rw [heq, List.length_cons] at hle
    omega

theorem length_le (h : Linked c dir i es) : es.length ≤ c.entries := by
  have hsub : es.toFinset ⊆ Finset.range c.entries := by
    intro e he
    exact Finset.mem_range.mpr (h.lt e (List.mem_toFinset.mp he))
  have hcard := Finset.card_le_card hsub
  rwa [List.toFinset_card_of_nodup h.nodup, Finset.card_range] at hcard

/-- The loop of an append-open along the links. -/
theorem lastEntry (h : Linked c (s.entry c) i es) (hbuffer : s.buffer = s.entry c i) (fuel : ℕ)
    (hfuel : es.length ≤ fuel) :
    (∀ a ∈ s.lastEntryAccesses c fuel, a.Ok c) ∧ (Eefs.lastEntry c fuel s i).2.hung = s.hung := by
  generalize hdir : s.entry c = dir at h
  induction h generalizing s fuel with
  | @last i hi hnext =>
    obtain ⟨fuel, rfl⟩ : ∃ n, fuel = n + 1 := Nat.exists_eq_succ_of_ne_zero (by simp at hfuel; omega)
    have hend : ¬s.buffer.nextentry ≠ 0xff := by rw [hbuffer, hdir, hnext]; decide
    rw [Eefs.lastEntryAccesses, Eefs.lastEntry, if_neg hend, if_neg hend]
    exact ⟨by simp, rfl⟩
  | @next i es hi hnext hrest ih =>
    rw [List.length_cons] at hfuel
    obtain ⟨fuel, rfl⟩ : ∃ n, fuel = n + 1 := Nat.exists_eq_succ_of_ne_zero (by omega)
    rw [← hdir, ← hbuffer] at hnext
    rw [Eefs.lastEntryAccesses, Eefs.lastEntry, if_pos hnext, if_pos hnext]
    have hhead := hrest.head
    obtain ⟨hok, hhung⟩ := ih (s := s.readEntry c (dir i).nextentry) rfl fuel (by omega) hdir
    rw [hbuffer, hdir]
    exact ⟨by simpa using ⟨hhead, hok⟩, hhung⟩

end Linked

/-- An append-open that ends and stays inside the directory has followed the links of the file. -/
theorem linked_of_lastEntry {i fuel : ℕ} (hi : i < c.entries) (hbuffer : s.buffer = s.entry c i)
    (hok : ∀ a ∈ s.lastEntryAccesses c fuel, a.Ok c)
    (hhung : (Eefs.lastEntry c fuel s i).2.hung = false) : ∃ es, Linked c (s.entry c) i es := by
  induction fuel generalizing s i with
  | zero => cases hhung
  | succ fuel ih =>
    rw [Eefs.lastEntryAccesses] at hok
    rw [Eefs.lastEntry] at hhung
    by_cases hnext : s.buffer.nextentry ≠ 0xff
    · rw [if_pos hnext] at hok hhung
      obtain ⟨es, hes⟩ := ih (s := s.readEntry c s.buffer.nextentry) (hok _ List.mem_cons_self) rfl
        (fun a ha => hok a (List.mem_cons_of_mem _ ha)) hhung
      rw [hbuffer] at hnext hes
      exact ⟨_, .next hi hnext hes⟩
    · rw [not_not, hbuffer] at hnext
      exact ⟨_, .last hi hnext⟩

section Erase

variable {dir : ℕ → Entry} {i : ℕ}

/-- An entry that is erased leads nowhere, so the way around it is the way behind it. -/
theorem succ_update {e : ℕ} (h : Relation.ReflTransGen (Succ dir) (dir i).nextentry e) :
    Relation.ReflTransGen (Succ (Function.update dir i Entry.erased)) (dir i).nextentry e := by
  induction h with
  | refl => exact .refl
  | @tail a b _ hstep ih =>
    by_cases ha : a = i
    · subst ha
      rw [← hstep.1]
    · refine ih.tail ⟨?_, hstep.2⟩
      rw [Function.update_of_ne ha]
      exact hstep.1

theorem update_succ {a e : ℕ} (h : Relation.ReflTransGen (Succ (Function.update dir i Entry.erased)) a e) :
    Relation.ReflTransGen (Succ dir) a e := by
  refine Relation.ReflTransGen.mono (r := Succ (Function.update dir i Entry.erased))
    (fun a b hstep => ⟨?_, hstep.2⟩) _ _ h
  have hne : a ≠ i := by
    rintro rfl
    have herased := hstep.1
    rw [Function.update_self] at herased
    exact hstep.2 herased.symm
  rw [← hstep.1, Function.update_of_ne hne]

theorem leading_erased : Entry.erased.leading = [] := by decide

theorem erasable_last (hnext : (dir i).nextentry = 0xff) :
    Erasable c dir i ↔ i < c.entries ∧ ∀ x ∈ (dir i).leading, x < c.sectorCount := by
  refine ⟨fun h => h i .refl, fun h e he => ?_⟩
  obtain rfl | ⟨j, hstep, -⟩ := he.cases_head
  · exact h
  · exact absurd (hstep.1.symm.trans hnext) hstep.2

theorem erasable_next (hnext : (dir i).nextentry ≠ 0xff) :
    Erasable c dir i ↔ (i < c.entries ∧ ∀ x ∈ (dir i).leading, x < c.sectorCount) ∧
      Erasable c (Function.update dir i Entry.erased) (dir i).nextentry := by
  constructor
  · refine fun h => ⟨h i .refl, fun e he => ?_⟩
    obtain ⟨hlt, hleading⟩ := h e (.head ⟨rfl, hnext⟩ (update_succ he))
    refine ⟨hlt, ?_⟩
    by_cases hei : e = i
    · subst hei
      rw [Function.update_self, leading_erased]
      exact fun x hx => absurd hx List.not_mem_nil
    · rwa [Function.update_of_ne hei]
  · rintro ⟨hself, hrest⟩ e he
    by_cases hei : e = i
    · exact hei ▸ hself
    obtain rfl | ⟨j, ⟨rfl, -⟩, htail⟩ := he.cases_head
    · exact hself
    · have hgood := hrest e (succ_update htail)
      rwa [Function.update_of_ne hei] at hgood

/-- How many entries still have a successor. -/
def linkCount (c : Config) (dir : ℕ → Entry) : ℕ :=
  ((Finset.range c.entries).filter fun e => (dir e).nextentry ≠ 0xff).card

theorem linkCount_erase (hi : i < c.entries) (hnext : (dir i).nextentry ≠ 0xff) :
    linkCount c (Function.update dir i Entry.erased) < linkCount c dir := by
  refine Finset.card_lt_card ⟨fun e he => ?_, fun hsub => ?_⟩
  · rw [Finset.mem_filter] at he ⊢
    by_cases hei : e = i
    · subst hei
      exact ⟨he.1, hnext⟩
    · rwa [Function.update_of_ne hei] at he
  · have hmem := hsub (Finset.mem_filter.mpr ⟨Finset.mem_range.mpr hi, hnext⟩)
    rw [Finset.mem_filter, Function.update_self] at hmem
    exact hmem.2 rfl

theorem linkCount_le (c : Config) (dir : ℕ → Entry) : linkCount c dir ≤ c.entries := by
  have hcard := Finset.card_filter_le (Finset.range c.entries) fun e => (dir e).nextentry ≠ 0xff
  rwa [Finset.card_range] at hcard

/-- The loop of `eepromfs_delete` erases the entries on its way, so that it passes none of them again. -/
theorem deleteChain_safe_iff {fuel : ℕ} (hhung : s.hung = false) (hbuffer : s.buffer = s.entry c i)
    (hfuel : linkCount c (s.entry c) < fuel) :
    (s.deleteChain c fuel i).hung = false ∧ (∀ a ∈ s.deleteChainAccesses c fuel i, a.Ok c) ↔
      Erasable c (s.entry c) i := by
  induction fuel generalizing s i with
  | zero => exact absurd hfuel (Nat.not_lt_zero _)
  | succ fuel ih =>
    obtain ⟨s', hs'⟩ : ∃ s', s' = ((s.markSectors s.buffer.leading false).setBuffer Entry.erased).writeEntry c i :=
      ⟨_, rfl⟩
    have hhung' : s'.hung = false := by
      rw [hs']
      exact (hung_markSectors _ _).trans hhung
    have hentry : s'.entry c = Function.update (s.entry c) i Entry.erased := by
      funext j
      rw [hs', Eefs.entry_writeEntry, Function.update_apply]
      split
      · rfl
      · funext k
        rw [Eefs.entry_buffer, Eefs.entry, (Eefs.mem_markSectors _ _).1, Eefs.entry]
    rw [Eefs.deleteChain, Eefs.deleteChainAccesses, ← hs', List.forall_mem_append, List.forall_mem_map,
      List.forall_mem_cons, hbuffer]
    by_cases hnext : (s.entry c i).nextentry = 0xff
    · rw [if_pos hnext, if_pos hnext, erasable_last hnext]
      exact ⟨fun h => ⟨h.2.2.1, h.2.1⟩, fun h => ⟨hhung', h.2, h.1, fun a ha => absurd ha List.not_mem_nil⟩⟩
    · rw [if_neg hnext, if_neg hnext, erasable_next hnext, List.forall_mem_cons, ← hentry]
      by_cases hi : i < c.entries
      · have hcount : linkCount c (s'.entry c) < fuel := by
          have hless := linkCount_erase hi hnext
          rw [← hentry] at hless
          omega
        have hrest := ih (s := s'.readEntry c (s.entry c i).nextentry) hhung' rfl hcount
        have hrest' : (∀ a ∈ (s'.readEntry c (s.entry c i).nextentry).deleteChainAccesses c fuel
            (s.entry c i).nextentry, a.Ok c) ∧ _ ↔ Erasable c (s'.entry c) (s.entry c i).nextentry :=
          and_comm.trans hrest
        rw [← hrest']
        constructor
        · exact fun h => ⟨⟨h.2.2.1, h.2.1⟩, h.2.2.2.2, h.1⟩
        · refine fun h => ⟨h.2.2, h.1.2, h.1.1, ?_, h.2.1⟩
          exact ((hrest'.mp h.2) _ .refl).1
      · exact iff_of_false (fun h => hi h.2.2.1) fun h => hi h.1.1

end Erase

section Read

variable {fh : Handle}

/-- What a handle that reads keeps. -/
structure Handle.Steady (c : Config) (fh : Handle) : Prop where
  size : fh.size < 65536
  le : fh.curOffset ≤ fh.size
  soffset : fh.curSoffset < c.sectorSize
  sindex : fh.curSindex < 30

theorem nextPlace_lt (dir : ℕ → Entry) (p : ℕ × ℕ) : (nextPlace dir p).2 < 30 := by
  have hmax := (dir p.1).maxSectors_le
  rw [nextPlace]
  split
  · exact Nat.zero_lt_succ _
  · show p.2 + 1 < 30
    omega

/-- The move to the next sector. -/
theorem advance_spec (s : Eefs) (hsindex : fh.curSindex < 30) :
    let a := s.advance c fh
    a.2.entry c = s.entry c ∧ a.2.hung = s.hung ∧ a.1.size = fh.size ∧ a.1.curOffset = fh.curOffset ∧
      a.1.curSoffset = fh.curSoffset ∧
      (a.1.curEntry, a.1.curSindex) = nextPlace (s.entry c) (fh.curEntry, fh.curSindex) ∧
      a.1.curSector = (s.entry c a.1.curEntry).sector a.1.curSindex ∧
      ((∀ x ∈ s.advanceAccesses c fh, x.Ok c) ↔ fh.curEntry < c.entries ∧
        (nextPlace (s.entry c) (fh.curEntry, fh.curSindex)).1 < c.entries) := by
  have hmod : (fh.curSindex + 1) % 256 = fh.curSindex + 1 := Nat.mod_eq_of_lt (by omega)
  simp only [Eefs.advance, Eefs.advanceAccesses, Eefs.buffer_readEntry, hmod, nextPlace]
  by_cases hmax : (s.entry c fh.curEntry).maxSectors ≤ fh.curSindex + 1
  · simp only [if_pos hmax]
    exact ⟨rfl, rfl, trivial, trivial, trivial, trivial, rfl, by simp [Access.Ok]⟩
  · simp only [if_neg hmax]
    exact ⟨rfl, rfl, trivial, trivial, trivial, trivial, rfl, by simp [Access.Ok]⟩

theorem length_readChunk (hoff : fh.curSoffset < c.sectorSize) (length : ℕ) :
    (s.readChunk c fh length).length = min length (c.sectorSize - fh.curSoffset) := by
  have hss := c.sectorSize_lt
  rw [Eefs.readChunk, List.length_map, List.length_range, Nat.mod_eq_of_lt (by omega)]

/-- The round moves to the next sector. -/
def Handle.Moves (fh : Handle) : Prop := fh.curOffset ≠ fh.size ∧ fh.curSoffset = 0

instance (fh : Handle) : Decidable fh.Moves := inferInstanceAs (Decidable (_ ∧ _))

theorem readLoop_move (fuel : ℕ) {length n : ℕ} (hne : length ≠ 0) (hn : (s.readChunk c fh length).length = n)
    (hmove : (fh.after c n).Moves) :
    (s.readLoop c (fuel + 1) fh length).2 = ((s.advance c (fh.after c n)).2.readLoop c fuel
        (s.advance c (fh.after c n)).1 (length - n)).2 ∧
      s.readLoopAccesses c (fuel + 1) fh length =
        .block (c.dataOffset + (c.sectorSize * fh.curSector + fh.curSoffset)) n ::
          (s.advanceAccesses c (fh.after c n) ++ (s.advance c (fh.after c n)).2.readLoopAccesses c fuel
            (s.advance c (fh.after c n)).1 (length - n)) := by
  subst hn
  rw [Eefs.readLoop, Eefs.readLoopAccesses, if_neg hne, if_neg hne]
  simp only [Handle.Moves, Handle.after] at hmove
  simp only [if_pos hmove]
  exact ⟨rfl, rfl⟩

theorem readLoop_stay (fuel : ℕ) {length n : ℕ} (hne : length ≠ 0) (hn : (s.readChunk c fh length).length = n)
    (hstay : ¬(fh.after c n).Moves) :
    (s.readLoop c (fuel + 1) fh length).2 = (s.readLoop c fuel (fh.after c n) (length - n)).2 ∧
      s.readLoopAccesses c (fuel + 1) fh length =
        .block (c.dataOffset + (c.sectorSize * fh.curSector + fh.curSoffset)) n ::
          s.readLoopAccesses c fuel (fh.after c n) (length - n) := by
  subst hn
  rw [Eefs.readLoop, Eefs.readLoopAccesses, if_neg hne, if_neg hne]
  simp only [Handle.Moves, Handle.after] at hstay
  simp only [if_neg hstay]
  exact ⟨rfl, rfl⟩

section Round

variable {dir : ℕ → Entry} {n : ℕ}

/-- A read within one sector, the one at hand. -/
theorem within_stay (hpos : 0 < n) (hfit : fh.curSoffset + n ≤ c.sectorSize)
    (hstay : fh.curSoffset + n = c.sectorSize → fh.curOffset + n = fh.size) :
    fh.Within c dir n ↔
      c.dataOffset + (c.sectorSize * fh.curSector + (fh.curSoffset + n)) ≤ c.offset + c.size := by
  have hss := c.sectorSize_pos
  constructor
  · intro hin
    have hbytes := hin.bytes 0 hpos (by omega)
    rw [Nat.mul_zero, Nat.sub_zero, min_eq_left hfit] at hbytes
    exact hbytes
  · intro hbytes
    refine ⟨fun k hk hless => ?_, fun k _ hk => ?_⟩
    · rw [Nat.mul_add, Nat.mul_one] at hk hless
      have := hstay (by omega)
      omega
    · obtain rfl : k = 0 := by
        by_contra hne
        have := Nat.mul_le_mul_left c.sectorSize (Nat.pos_of_ne_zero hne)
        omega
      rw [Nat.mul_zero, Nat.sub_zero, min_eq_left hfit]
      exact hbytes

theorem place_succ {fh' : Handle} (hplace : (fh'.curEntry, fh'.curSindex) =
    nextPlace dir (fh.curEntry, fh.curSindex)) (k : ℕ) : fh'.place dir k = fh.place dir (k + 1) := by
  rw [Handle.place, Handle.place, Function.iterate_succ_apply, hplace]

/-- A read that goes on to the next sector. -/
theorem within_move {fh' : Handle} (h : fh.Steady c) (hfull : c.sectorSize ≤ fh.curSoffset + n)
    (hless : fh.curOffset + c.sectorSize < fh.size + fh.curSoffset)
    (hplace : (fh'.curEntry, fh'.curSindex) = nextPlace dir (fh.curEntry, fh.curSindex))
    (hsector : fh'.curSector = (dir fh'.curEntry).sector fh'.curSindex) (hsize : fh'.size = fh.size)
    (hoffset : fh'.curOffset + fh.curSoffset = fh.curOffset + c.sectorSize) (hsoffset : fh'.curSoffset = 0) :
    fh.Within c dir n ↔
      c.dataOffset + c.sectorSize * (fh.curSector + 1) ≤ c.offset + c.size ∧
        (fh.curEntry < c.entries ∧ (nextPlace dir (fh.curEntry, fh.curSindex)).1 < c.entries) ∧
          fh'.Within c dir (fh.curSoffset + n - c.sectorSize) := by
  have hss := c.sectorSize_pos
  have hlt := h.soffset
  have hsectorAt : ∀ k, fh'.sectorAt dir k = fh.sectorAt dir (k + 1) := by
    intro k
    rw [Handle.sectorAt, Handle.sectorAt, if_neg (Nat.succ_ne_zero k), ← place_succ hplace]
    split
    · next hzero => rw [hzero, hsector]; rfl
    · rfl
  have hshift : ∀ k, c.sectorSize * (k + 1) = c.sectorSize * k + c.sectorSize := fun k => Nat.mul_succ _ _
  constructor
  · intro hin
    refine ⟨?_, hin.entries 0 (by omega) (by omega), fun k hk hk' => ?_, fun k hpos hk => ?_⟩
    · have hbytes := hin.bytes 0 (by omega) (by omega)
      rw [Nat.mul_zero, Nat.sub_zero, min_eq_right hfull] at hbytes
      exact hbytes
    · rw [place_succ hplace, place_succ hplace]
      rw [hshift] at hk hk'
      exact hin.entries (k + 1) (by rw [hshift, hshift]; omega) (by rw [hshift, hshift]; omega)
    · have hbytes := hin.bytes (k + 1) (by omega) (by rw [hshift]; omega)
      rw [hshift, ← hsectorAt] at hbytes
      rw [hsoffset]
      omega
  · rintro ⟨hbytes, hentries, hrest⟩
    refine ⟨fun k hk hk' => ?_, fun k hpos hk => ?_⟩
    · cases k with
      | zero => exact hentries
      | succ k =>
        rw [hshift, hshift] at hk hk'
        rw [← place_succ hplace, ← place_succ hplace]
        exact hrest.entries k (by rw [hshift]; omega) (by rw [hshift]; omega)
    · cases k with
      | zero =>
        rw [Nat.mul_zero, Nat.sub_zero, min_eq_right hfull]
        exact hbytes
      | succ k =>
        rw [hshift] at hk
        have hbytes' := hrest.bytes k (by omega) (by omega)
        rw [hsoffset, hsectorAt] at hbytes'
        rw [hshift]
        omega

end Round

/-- What a call of the loop of `eepromfs_read` leaves behind. -/
structure Reads (c : Config) (s : Eefs) (r : Handle × Eefs) : Prop where
  steady : r.1.Steady c
  hung : r.2.hung = s.hung

/-- The loop of `eepromfs_read` stays in the area exactly if the bytes lie there. -/
theorem readLoop_ok_iff {fuel n : ℕ} (h : fh.Steady c) (hn : fh.curOffset + n ≤ fh.size) (hfuel : n ≤ fuel) :
    ((∀ a ∈ s.readLoopAccesses c fuel fh n, a.Ok c) ↔ 0 < n → fh.Within c (s.entry c) n) ∧
      Reads c s (s.readLoop c fuel fh n).2 := by
  induction fuel generalizing s fh n with
  | zero =>
    obtain rfl : n = 0 := by omega
    exact ⟨iff_of_true (by simp [Eefs.readLoopAccesses]) fun hpos => absurd hpos (Nat.lt_irrefl 0), h, rfl⟩
  | succ fuel ih =>
    by_cases hzero : n = 0
    · subst hzero
      refine ⟨iff_of_true (by simp [Eefs.readLoopAccesses]) fun hpos => absurd hpos (Nat.lt_irrefl 0), ?_⟩
      rw [Eefs.readLoop, if_pos rfl]
      exact ⟨h, rfl⟩
    have hlt := h.soffset
    have hsize := h.size
    have hlen := length_readChunk (s := s) hlt n
    obtain ⟨m, hm⟩ : ∃ m, m = min n (c.sectorSize - fh.curSoffset) := ⟨_, rfl⟩
    rw [← hm] at hlen
    have hafter : (fh.after c m).curOffset = fh.curOffset + m := Nat.mod_eq_of_lt (by omega)
    have hsteady : (fh.after c m).Steady c :=
      ⟨h.size, hafter.trans_le (show fh.curOffset + m ≤ fh.size by omega), Nat.mod_lt _ c.sectorSize_pos, h.sindex⟩
    have hblock : (Access.block (c.dataOffset + (c.sectorSize * fh.curSector + fh.curSoffset)) m).Ok c ↔
        c.dataOffset + (c.sectorSize * fh.curSector + (fh.curSoffset + m)) ≤ c.offset + c.size := by
      have hdata : c.offset ≤ c.dataOffset := Nat.le_add_right _ _
      rw [Access.Ok]
      omega
    have hmoves : (fh.after c m).Moves ↔ fh.curOffset + m ≠ fh.size ∧ fh.curSoffset + m = c.sectorSize := by
      rw [Handle.Moves, hafter]
      refine and_congr_right fun _ => ?_
      show (fh.curSoffset + m) % c.sectorSize = 0 ↔ _
      by_cases hfull : fh.curSoffset + m = c.sectorSize
      · rw [hfull, Nat.mod_self]
        exact iff_of_true rfl rfl
      · rw [Nat.mod_eq_of_lt (by omega)]
        exact iff_of_false (by omega) hfull
    by_cases hmove : (fh.after c m).Moves
    · obtain ⟨hmore, hfull⟩ := hmoves.mp hmove
      obtain ⟨hloop, haccesses⟩ := readLoop_move fuel hzero hlen hmove
      obtain ⟨hentry, hhung, hs1, hs2, hs3, hplace, hsector, hok⟩ := advance_spec s hsteady.sindex
      have hcur : ((fh.after c m).curEntry, (fh.after c m).curSindex) = (fh.curEntry, fh.curSindex) := rfl
      rw [hcur] at hplace hok
      generalize hadv : s.advance c (fh.after c m) = a at hloop haccesses hentry hhung hs1 hs2 hs3 hplace hsector
      have hnext : a.1.Steady c := by
        refine ⟨hs1 ▸ h.size, ?_, hs3 ▸ hsteady.soffset, ?_⟩
        · rw [hs1, hs2]
          exact hsteady.le
        · have hindex := nextPlace_lt (s.entry c) (fh.curEntry, fh.curSindex)
          rw [← hplace] at hindex
          exact hindex
      have hsize' : a.1.size = fh.size := hs1
      have hoffset' : a.1.curOffset = fh.curOffset + m := hs2.trans hafter
      have hsoffset' : a.1.curSoffset = 0 := hs3.trans hmove.2
      obtain ⟨hrest, hreads⟩ := ih (s := a.2) (n := n - m) hnext (by omega) (by omega)
      have hwithin : fh.Within c (s.entry c) n ↔ _ :=
        within_move h (by omega) (by omega) hplace hsector hsize' (by omega) hsoffset'
      have hremain : fh.curSoffset + n - c.sectorSize = n - m := by omega
      have hend : c.sectorSize * fh.curSector + (fh.curSoffset + m) = c.sectorSize * (fh.curSector + 1) := by
        rw [hfull, Nat.mul_succ]
      -- at the end of the read there is nothing that the rest would need
      have hnone : ¬0 < n - m → a.1.Within c (s.entry c) (n - m) := by
        intro hno
        refine ⟨fun k hk _ => ?_, fun k hpos => absurd hpos hno⟩
        rw [Nat.mul_succ] at hk
        have := c.sectorSize_pos
        omega
      refine ⟨?_, ?_⟩
      · rw [haccesses, List.forall_mem_cons, List.forall_mem_append, hblock, hok, hrest, hentry, hend]
        rw [hremain] at hwithin
        refine Iff.trans ?_ (imp_iff_right (Nat.pos_of_ne_zero hzero)).symm
        rw [hwithin]
        refine and_congr_right fun _ => and_congr_right fun _ => ⟨fun himp => ?_, fun hw _ => hw⟩
        by_cases hpos : 0 < n - m
        · exact himp hpos
        · exact hnone hpos
      · rw [hloop]
        exact ⟨hreads.steady, hreads.hung.trans hhung⟩
    · obtain ⟨hloop, haccesses⟩ := readLoop_stay fuel hzero hlen hmove
      have hall : n = m := by
        by_contra hne
        exact hmove (hmoves.mpr ⟨by omega, by omega⟩)
      have hfits : (fh.after c m).curOffset + (n - m) ≤ (fh.after c m).size := by
        rw [hafter]
        show fh.curOffset + m + (n - m) ≤ fh.size
        omega
      obtain ⟨hrest, hreads⟩ := ih (s := s) (n := n - m) hsteady hfits (by omega)
      have hwithin : fh.Within c (s.entry c) n ↔
          c.dataOffset + (c.sectorSize * fh.curSector + (fh.curSoffset + n)) ≤ c.offset + c.size := by
        refine within_stay (Nat.pos_of_ne_zero hzero) (by omega) fun hfull => ?_
        by_contra hmore
        exact hmove (hmoves.mpr ⟨by omega, by omega⟩)
      refine ⟨?_, ?_⟩
      · rw [haccesses, List.forall_mem_cons, hblock, hrest, imp_iff_right (Nat.pos_of_ne_zero hzero), hwithin, hall]
        exact ⟨And.left, fun hb => ⟨hb, fun hpos => absurd hpos (by omega)⟩⟩
      · rw [hloop]
        exact hreads

end Read

theorem isFirst_init {i : ℕ} {name : Name} : (s.eepromfsInit c).IsFirst c i name ↔ s.IsFirst c i name := by
  simp only [Eefs.IsFirst, Eefs.IsFile, Eefs.Live, entry_init]

/-- `eepromfs_init` touches the bits of all sectors that the entries in use list. -/
theorem initAccesses_ok_iff : (∀ a ∈ s.initAccesses c, a.Ok c) ↔
    ∀ i, s.Live c i → ∀ x ∈ (s.entry c i).listed, x < c.sectorCount := by
  constructor
  · intro h i hi x hx
    refine h (.sector x) ?_
    rw [Eefs.initAccesses, List.mem_flatMap]
    refine ⟨i, List.mem_range.mpr hi.1, ?_⟩
    rw [hi.2]
    simp [hx]
  · intro h a ha
    rw [Eefs.initAccesses, List.mem_flatMap] at ha
    obtain ⟨i, hi, hmem⟩ := ha
    have hlt := List.mem_range.mp hi
    cases hdel : (s.entry c i).deleted with
    | true =>
      rw [hdel] at hmem
      obtain rfl : a = .entry i := by simpa using hmem
      exact hlt
    | false =>
      rw [hdel] at hmem
      simp only [Bool.false_eq_true, if_false, List.mem_cons, List.mem_map] at hmem
      rcases hmem with rfl | rfl | ⟨x, hx, rfl⟩
      · exact hlt
      · exact hlt
      · exact h i ⟨hlt, hdel⟩ x hx

namespace Users

variable {m : Users}

/-- What holds as long as no call has gone astray. -/
structure Sound (c : Config) (m : Users) : Prop where
  hung : m.fs.hung = false
  steady : ∀ h, (m.handle h).filemode = .read → (m.handle h).Steady c

theorem steady_zero (c : Config) : Handle.zero.Steady c :=
  ⟨by decide, le_rfl, c.sectorSize_pos, by decide⟩

theorem Sound.set (hm : m.Sound c) (h : ℕ) {fh : Handle} (hhung : s.hung = false)
    (hfh : fh.filemode = .read → fh.Steady c) : Sound c ⟨s, Function.update m.handle h fh⟩ := by
  refine ⟨hhung, fun k (hk : (Function.update m.handle h fh k).filemode = .read) => ?_⟩
  show (Function.update m.handle h fh k).Steady c
  by_cases hkh : k = h
  · subst hkh
    rw [Function.update_self] at hk ⊢
    exact hfh hk
  · rw [Function.update_of_ne hkh] at hk ⊢
    exact hm.steady k hk

theorem step_init (hm : m.Sound c) :
    (((m.step c .init).1.Safe c) ↔ m.Trusts c .init) ∧ (m.step c .init).2.Sound c := by
  refine ⟨?_, (hung_init c _).trans hm.hung, hm.steady⟩
  rw [Trace.Safe, step, Trusts, ← initAccesses_ok_iff]
  exact and_iff_right rfl

/-- Only the loop of an append-open follows what the EEPROM says. -/
theorem step_open (hm : m.Sound c) (h : ℕ) (name : Name) (mode : Mode) :
    ((m.step c (.open h name mode)).1.Safe c ↔ m.Trusts c (.open h name mode)) ∧
      (m.Trusts c (.open h name mode) → (m.step c (.open h name mode)).2.Sound c) := by
  have hent := c.entries_lt
  have hfind : ∀ a ∈ m.fs.findAccesses c name c.entries, a.Ok c := findAccesses_ok name le_rfl
  obtain ⟨buffer, heq, hcases⟩ := findEntry_first c m.fs name
  have hhung : (m.fs.findEntry c name).2.hung = false := by
    rw [heq]
    exact hm.hung
  have hsize : ∀ e : Entry, e.size < 65536 := by
    intro e
    have hlow := (e 28).toNat_lt
    have hhigh := (e 29).toNat_lt
    rw [Entry.size]
    omega
  cases mode with
  | write =>
    have hopened := Eefs.opened_write c m.fs name
    have hend : (m.fs.eepromfsOpen c name .write).2.2.hung = false ∧
        ((m.fs.eepromfsOpen c name .write).2.1.filemode = .read →
          (m.fs.eepromfsOpen c name .write).2.1.Steady c) := by
      generalize m.fs.eepromfsOpen c name .write = r at hopened
      cases hopened with
      | fileExists => exact ⟨hm.hung, fun _ => steady_zero c⟩
      | dirFull => exact ⟨hm.hung, fun _ => ⟨Nat.zero_lt_succ _, le_rfl, c.sectorSize_pos, Nat.zero_lt_succ _⟩⟩
      | created _ _ _ _ hquiet => exact ⟨hquiet.hung.trans hm.hung, fun hmode => by cases hmode⟩
    refine ⟨iff_of_true ⟨?_, ?_⟩ trivial, fun _ => hm.set h hend.1 hend.2⟩
    · show (!(m.fs.eepromfsOpen c name .write).2.2.hung) = true
      rw [hend.1]
      rfl
    · show ∀ a ∈ m.fs.openAccesses c name .write, a.Ok c
      rw [Eefs.openAccesses, List.forall_mem_append]
      refine ⟨hfind, ?_⟩
      split
      · simp
      · rw [List.forall_mem_append]
        refine ⟨freeEntryAccesses_ok, ?_⟩
        rcases Eefs.nextFreeEntry_cases c (m.fs.findEntry c name).2 c.entries_pos with
          ⟨hnone, -⟩ | ⟨i, hi, -, hsome⟩
        · simp [hnone]
        · rw [hsome, if_neg (show ¬i = 255 by omega)]
          intro a ha
          obtain rfl := List.mem_singleton.mp ha
          exact hi
  | read =>
    have hend : (m.fs.eepromfsOpen c name .read).2.2.hung = false ∧
        (m.fs.eepromfsOpen c name .read).2.1.Steady c := by
      rw [Eefs.eepromfsOpen]
      split
      · exact ⟨hhung, steady_zero c⟩
      · exact ⟨hhung, ⟨hsize _, Nat.zero_le _, c.sectorSize_pos, Nat.zero_lt_succ _⟩⟩
    refine ⟨iff_of_true ⟨?_, ?_⟩ trivial, fun _ => hm.set h hend.1 fun _ => hend.2⟩
    · show (!(m.fs.eepromfsOpen c name .read).2.2.hung) = true
      rw [hend.1]
      rfl
    · show ∀ a ∈ m.fs.openAccesses c name .read, a.Ok c
      rw [Eefs.openAccesses, List.append_nil]
      exact hfind
  | append =>
    obtain ⟨h255, hnone⟩ | ⟨hfirst, hbuffer⟩ := hcases
    · have hopen : m.fs.eepromfsOpen c name .append = (.fileNotFound, Handle.zero, (m.fs.findEntry c name).2) := by
        rw [Eefs.eepromfsOpen]
        exact if_pos h255
      refine ⟨iff_of_true ⟨?_, ?_⟩ fun i hi => absurd hi (hnone i), fun _ => ?_⟩
      · show (!(m.fs.eepromfsOpen c name .append).2.2.hung) = true
        rw [hopen, hhung]
        rfl
      · show ∀ a ∈ m.fs.openAccesses c name .append, a.Ok c
        rw [Eefs.openAccesses, List.forall_mem_append, if_pos h255]
        exact ⟨hfind, fun a ha => absurd ha List.not_mem_nil⟩
      · show Sound c ⟨(m.fs.eepromfsOpen c name .append).2.2,
          Function.update m.handle h (m.fs.eepromfsOpen c name .append).2.1⟩
        rw [hopen]
        exact hm.set h hhung fun _ => steady_zero c
    · obtain ⟨i, hi⟩ : ∃ i, i = (m.fs.findEntry c name).1 := ⟨_, rfl⟩
      rw [← hi] at hfirst hbuffer
      have hlt := hfirst.1.1.1
      have hs : (m.fs.findEntry c name).2 = m.fs.readEntry c i := by rw [heq, hbuffer]; rfl
      have hopen : m.fs.eepromfsOpen c name .append = (m.fs.readEntry c i).openAppend c i := by
        rw [Eefs.eepromfsOpen, ← hi, if_neg (by omega), hs]
      have haccesses : m.fs.openAccesses c name .append =
          m.fs.findAccesses c name c.entries ++ (m.fs.readEntry c i).lastEntryAccesses c 257 := by
        rw [Eefs.openAccesses, ← hi, if_neg (by omega), hs]
      have htrusts : m.Trusts c (.open h name .append) ↔ ∃ es, Linked c (m.fs.entry c) i es :=
        ⟨fun htrusts => htrusts i hfirst, fun hes j hj => hfirst.unique hj ▸ hes⟩
      have hlast : (∃ es, Linked c (m.fs.entry c) i es) →
          (∀ a ∈ (m.fs.readEntry c i).lastEntryAccesses c 257, a.Ok c) ∧
            (Eefs.lastEntry c 257 (m.fs.readEntry c i) i).2.hung = false := by
        rintro ⟨es, hes⟩
        have hlen := hes.length_le
        obtain ⟨hok, hkept⟩ := hes.lastEntry (s := m.fs.readEntry c i) rfl 257 (by omega)
        exact ⟨hok, hkept.trans hm.hung⟩
      refine ⟨?_, fun ht => ?_⟩
      · rw [htrusts]
        show (!(m.fs.eepromfsOpen c name .append).2.2.hung) = true ∧
          (∀ a ∈ m.fs.openAccesses c name .append, a.Ok c) ↔ _
        rw [hopen, haccesses, List.forall_mem_append]
        constructor
        · rintro ⟨hends, -, hok⟩
          exact linked_of_lastEntry (s := m.fs.readEntry c i) hlt rfl hok ((Bool.not_eq_true' _).mp hends)
        · intro hes
          obtain ⟨hok, hends⟩ := hlast hes
          exact ⟨(Bool.not_eq_true' _).mpr hends, hfind, hok⟩
      · show Sound c ⟨(m.fs.eepromfsOpen c name .append).2.2,
          Function.update m.handle h (m.fs.eepromfsOpen c name .append).2.1⟩
        rw [hopen]
        exact hm.set h (hlast (htrusts.mp ht)).2 fun hmode => by cases hmode

theorem step_read (hm : m.Sound c) (h length : ℕ) :
    ((m.step c (.read h length)).1.Safe c ↔ m.Trusts c (.read h length)) ∧
      (m.step c (.read h length)).2.Sound c := by
  by_cases hmode : (m.handle h).filemode = .read
  · have hsteady := hm.steady h hmode
    have hle := hsteady.le
    obtain ⟨hiff, hreads⟩ := readLoop_ok_iff (s := m.fs) hsteady
      (n := min length ((m.handle h).size - (m.handle h).curOffset)) (by omega) le_rfl
    have hlen := (readLoop_spec (c := c) (s := m.fs)
      (le_refl (min length ((m.handle h).size - (m.handle h).curOffset))) hsteady.soffset).1
    have hread : m.fs.eepromfsRead c (m.handle h) length = (.ok, m.fs.readLoop c
        (min length ((m.handle h).size - (m.handle h).curOffset)) (m.handle h)
        (min length ((m.handle h).size - (m.handle h).curOffset))) := if_neg (not_not.mpr hmode)
    have haccesses : m.fs.readAccesses c (m.handle h) length = m.fs.readLoopAccesses c
        (min length ((m.handle h).size - (m.handle h).curOffset)) (m.handle h)
        (min length ((m.handle h).size - (m.handle h).curOffset)) := if_neg (not_not.mpr hmode)
    refine ⟨?_, ?_⟩
    · rw [Trace.Safe, step, Trusts, imp_iff_right hmode]
      dsimp only
      rw [hread, haccesses, hiff]
      refine Iff.trans (and_iff_right (by simp [hlen])) ⟨fun himp => ?_, fun hw _ => hw⟩
      by_cases hpos : 0 < min length ((m.handle h).size - (m.handle h).curOffset)
      · exact himp hpos
      · have hss := hsteady.soffset
        refine ⟨fun k hk _ => ?_, fun k hpos' => absurd hpos' hpos⟩
        rw [Nat.mul_succ] at hk
        omega
    · rw [step]
      dsimp only
      rw [hread]
      exact hm.set h (hreads.hung.trans hm.hung) fun _ => hreads.steady
  · have hread : m.fs.eepromfsRead c (m.handle h) length = (.invalid, [], m.handle h, m.fs) := if_pos hmode
    have haccesses : m.fs.readAccesses c (m.handle h) length = [] := if_pos hmode
    refine ⟨iff_of_true ?_ fun hm => absurd hm hmode, ?_⟩
    · rw [Trace.Safe, step]
      dsimp only
      rw [hread, haccesses]
      exact ⟨by simp [hmode], fun a ha => absurd ha List.not_mem_nil⟩
    · rw [step]
      dsimp only
      rw [hread]
      exact hm.set h hm.hung fun hmode' => absurd hmode' hmode

theorem step_delete (hm : m.Sound c) (name : Name) :
    ((m.step c (.delete name)).1.Safe c ↔ m.Trusts c (.delete name)) ∧
      (m.Trusts c (.delete name) → (m.step c (.delete name)).2.Sound c) := by
  have hent := c.entries_lt
  have hfind : ∀ a ∈ m.fs.findAccesses c name c.entries, a.Ok c := findAccesses_ok name le_rfl
  obtain ⟨buffer, heq, hcases⟩ := findEntry_first c m.fs name
  obtain ⟨h255, hnone⟩ | ⟨hfirst, hbuffer⟩ := hcases
  · have hdelete : m.fs.eepromfsDelete c name = (.fileNotFound, (m.fs.findEntry c name).2) := if_pos h255
    have hhung : (m.fs.eepromfsDelete c name).2.hung = false := by
      rw [hdelete, heq]
      exact hm.hung
    refine ⟨iff_of_true ⟨?_, ?_⟩ fun i hi => absurd hi (hnone i), fun _ => ⟨hhung, hm.steady⟩⟩
    · show (!(m.fs.eepromfsDelete c name).2.hung) = true
      rw [hhung]
      rfl
    · show ∀ a ∈ m.fs.deleteAccesses c name, a.Ok c
      rw [Eefs.deleteAccesses, List.forall_mem_append, if_pos h255]
      exact ⟨hfind, fun a ha => absurd ha List.not_mem_nil⟩
  · obtain ⟨i, hi⟩ : ∃ i, i = (m.fs.findEntry c name).1 := ⟨_, rfl⟩
    rw [← hi] at hfirst hbuffer
    have hlt := hfirst.1.1.1
    have hs : (m.fs.findEntry c name).2 = m.fs.readEntry c i := by rw [heq, hbuffer]; rfl
    have hdelete : m.fs.eepromfsDelete c name = (.ok, (m.fs.readEntry c i).deleteChain c 257 i) := by
      rw [Eefs.eepromfsDelete, ← hi, if_neg (by omega), hs]
    have haccesses : m.fs.deleteAccesses c name =
        m.fs.findAccesses c name c.entries ++ (m.fs.readEntry c i).deleteChainAccesses c 257 i := by
      rw [Eefs.deleteAccesses, ← hi, if_neg (by omega), hs]
    have htrusts : m.Trusts c (.delete name) ↔ Erasable c (m.fs.entry c) i :=
      ⟨fun htrusts => htrusts i hfirst, fun herase j hj => hfirst.unique hj ▸ herase⟩
    have hfuel : linkCount c (m.fs.entry c) < 257 := (linkCount_le c _).trans_lt (by omega)
    have hchain : ((m.fs.readEntry c i).deleteChain c 257 i).hung = false ∧
        (∀ a ∈ (m.fs.readEntry c i).deleteChainAccesses c 257 i, a.Ok c) ↔ Erasable c (m.fs.entry c) i :=
      deleteChain_safe_iff hm.hung rfl hfuel
    refine ⟨?_, fun ht => ⟨?_, hm.steady⟩⟩
    · rw [htrusts, ← hchain]
      show (!(m.fs.eepromfsDelete c name).2.hung) = true ∧ (∀ a ∈ m.fs.deleteAccesses c name, a.Ok c) ↔ _
      rw [hdelete, haccesses, List.forall_mem_append, Bool.not_eq_true']
      exact and_congr_right fun _ => and_iff_right hfind
    · show (m.fs.eepromfsDelete c name).2.hung = false
      rw [hdelete]
      exact (hchain.mpr (htrusts.mp ht)).1

/-- A call is safe exactly if it may trust the EEPROM, and then the next one starts from a sound state. -/
theorem step_safe_iff (hm : m.Sound c) (u : Use) :
    ((m.step c u).1.Safe c ↔ m.Trusts c u) ∧ (m.Trusts c u → (m.step c u).2.Sound c) := by
  cases u with
  | init => exact ⟨(step_init hm).1, fun _ => (step_init hm).2⟩
  | «open» h name mode => exact step_open hm h name mode
  | read h length => exact ⟨(step_read hm h length).1, fun _ => (step_read hm h length).2⟩
  | delete name => exact step_delete hm name

theorem sound_start (c : Config) (s : Eefs) : (start s).Sound c := ⟨rfl, fun _ _ => steady_zero c⟩

/-- Whatever the EEPROM holds, all calls of a run that begins with `eepromfs_init` end and stay inside the file system
exactly if each of them may trust what it finds. -/
theorem run_safe_iff (c : Config) (s : Eefs) (uses : List Use) :
    (∀ t ∈ (run (step c) (start s) (.init :: uses)).1, t.Safe c) ↔
      Meets (step c) (Trusts c) (start s) (.init :: uses) :=
  results_iff_meets (I := Sound c) (fun _ u hm => step_safe_iff hm u) (sound_start c s)

/-- An EEPROM that holds nothing but zero bytes: entry 0 is a file that is its own successor. -/
def zeroBytes : Eefs := ⟨fun _ => 0, fun _ => 0, fun _ => 0, 0, fun _ => 0, false, false, false⟩

theorem not_run_safe : ¬∀ t ∈ (run (step Config.avr) (start zeroBytes)
    [.init, .open 0 (fun _ => 0) .append]).1, t.Safe Config.avr := by
  intro hsafe
  have hmeets := (results_iff_meets (I := Sound Config.avr) (fun _ u hm => step_safe_iff hm u)
    (sound_start Config.avr _)).mp hsafe
  have hfile : (start zeroBytes).fs.IsFile Config.avr 0 fun _ => 0 := by decide
  have hfirst : ((start zeroBytes).fs.eepromfsInit Config.avr).IsFirst Config.avr 0 fun _ => 0 :=
    isFirst_init.mpr ⟨hfile, fun j hj => absurd hj (Nat.not_lt_zero _)⟩
  have hlinked : ∃ es, Linked Config.avr (((start zeroBytes).fs.eepromfsInit Config.avr).entry Config.avr) 0 es :=
    hmeets.2.1 0 hfirst
  rw [entry_init] at hlinked
  obtain ⟨es, hes⟩ := hlinked
  have hnodup := hes.nodup
  cases hes with
  | last _ hnext => exact absurd hnext (by decide)
  | next _ _ hrest =>
    cases hrest with
    | last _ hnext => exact absurd hnext (by decide)
    | next => simp [start, zeroBytes, Eefs.entry, Entry.nextentry] at hnodup

end Users

end NoDiskEmu.Eeprom
