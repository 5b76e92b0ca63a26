import NoDiskEmu.Fat.Records

/-! What the callbacks of a FAT file leave in the buffer for the talk loops, whatever FatFs returns. -/

namespace NoDiskEmu.Fat

open Library

/-- A record whose zeros can be stripped: it is empty, or not all of it is zero. The end of a record of
255 bytes wraps to byte 0 of the buffer, `first`, and from there to its last byte. -/
def Strippable (first : UInt8) (record : List UInt8) : Prop :=
  record = [] ∨ (record.length < 255 ∧ ∃ x ∈ record, x ≠ 0) ∨
    (record.length = 255 ∧ first = 0 ∧ ∃ x ∈ record.take 254, x ≠ 0)

namespace State

variable {s s' : State}

/-- The bytes that a refill reads are not stripped to nothing. -/
def Fillable (s : State) : Prop :=
  s.recordlen = 0 ∨ Strippable (s.data 0) ((s.fh.contents.drop s.fh.pointer).take s.recordlen)

/-- A refill reads the file, or the buffer is free. -/
theorem fatFileRead_cases (s : State) :
    s.fatFileRead = (false, s.nextIo.filled (if s.recordlen ≠ 0 then s.recordlen else 254)) ∨
      (s.fatFileRead.1 = true ∧ s.fatFileRead.2.allocated = false) := by
  rw [fatFileRead]
  dsimp only
  generalize (if s.recordlen ≠ 0 then s.recordlen else 254) = want
  rw [fRead]
  dsimp only
  cases s.io 0 with
  | ok => exact .inl rfl
  | short count => exact .inl rfl
  | failed res ne =>
    dsimp only
    rw [if_pos ne]
    exact .inr ⟨rfl, rfl⟩

theorem fatFileRead_success (h : s.fatFileRead = (false, s')) :
    s' = s.nextIo.filled (if s.recordlen ≠ 0 then s.recordlen else 254) := by
  obtain hread | ⟨hfail, -⟩ := s.fatFileRead_cases
  · exact (congrArg Prod.snd (h.symm.trans hread))
  · rw [h] at hfail
    cases hfail

theorem fatFileRead_allocated (h : s.fatFileRead.2.allocated = true) :
    s.fatFileRead = (false, s.fatFileRead.2) := by
  obtain hread | ⟨-, hfree⟩ := s.fatFileRead_cases
  · rw [hread]
  · rw [hfree] at h
    cases h

theorem stripNulls_le (data : ℕ → UInt8) {fuel l : ℕ} (hl : l ≤ 255) : stripNulls data fuel l ≤ 255 := by
  induction fuel generalizing l with
  | zero => exact hl
  | succ fuel ih =>
    have hmod : (l + 255) % 256 ≤ 255 := Nat.le_of_lt_succ (Nat.mod_lt _ (by decide))
    rw [stripNulls]
    split
    · dsimp only
      split
      · exact ih hmod
      · exact hmod
    · exact hl

theorem filled_lastused_le (want : ℕ) : (s.filled want).lastused ≤ 255 := by
  have hmod : ∀ n, (n + 1) % 256 ≤ 255 := fun n => Nat.le_of_lt_succ (Nat.mod_lt _ (by decide))
  rw [filled]
  dsimp only
  split
  · exact stripNulls_le _ (hmod _)
  · exact hmod _

/-- The bytes of a record in the buffer. -/
theorem fetched_record {r n : ℕ} {record : List UInt8} (hn : s.fh.available r = n) (hpos : n ≠ 0)
    (hrecord : record = (s.fh.contents.drop s.fh.pointer).take r) :
    record.length = n ∧ ∀ x, (∃ o, 2 ≤ o ∧ o ≤ n + 1 ∧ s.fetched n o = x) ↔ x ∈ record := by
  have hmap : record = (List.range n).map fun i => s.fh.bytes (s.fh.pointer + i) := by
    rw [hrecord, ← File.range_available, hn]
  have hbyte : ∀ i < n, s.fetched n (2 + i) = s.fh.bytes (s.fh.pointer + i) := by
    intro i hi
    rw [fetched, if_neg hpos]
    exact Memory.write_inside hi
  refine ⟨by rw [hmap, List.length_map, List.length_range], fun x => ?_⟩
  rw [hmap, List.mem_map]
  constructor
  · rintro ⟨o, hlow, hhigh, rfl⟩
    refine ⟨o - 2, List.mem_range.mpr (by omega), ?_⟩
    rw [← hbyte _ (by omega), show 2 + (o - 2) = o by omega]
  · rintro ⟨i, hi, rfl⟩
    have hi := List.mem_range.mp hi
    exact ⟨2 + i, by omega, by omega, hbyte i hi⟩

/-- A record that is shorter than 255 bytes. -/
theorem filled_short {r : ℕ} (hrecordlen : s.recordlen = r) (hpos : 1 ≤ r) (hn : s.fh.available r ≤ 254) :
    2 ≤ (s.filled r).lastused ↔ Strippable (s.data 0) ((s.fh.contents.drop s.fh.pointer).take r) := by
  have hlast := filled_lastused hrecordlen hpos hn
  by_cases hzero : s.fh.available r = 0
  · have hnil : (s.fh.contents.drop s.fh.pointer).take r = [] := by
      rw [← File.range_available, hzero]
      rfl
    have hfirst : s.fetched 0 2 = 255 := by
      rw [fetched, if_pos rfl, hrecordlen, if_pos (Nat.ne_of_gt hpos), Function.update_self]
    rw [hzero] at hlast
    obtain ⟨-, hall⟩ | ⟨hlow, -⟩ := hlast
    · exact absurd (hfirst.symm.trans (hall 2 (le_refl 2) (le_refl 2))) (by decide)
    · exact iff_of_true hlow (.inl hnil)
  · obtain ⟨hlength, hmem⟩ := fetched_record rfl hzero rfl
    dsimp only at hlast
    rw [if_neg hzero] at hlast
    obtain ⟨hone, hall⟩ | ⟨hlow, -, o, ho, ho', hne⟩ := hlast
    · refine iff_of_false (by omega) ?_
      rintro (hnil | ⟨-, x, hx, hne⟩ | ⟨hlong, -⟩)
      · rw [hnil, List.length_nil] at hlength
        exact hzero hlength.symm
      · obtain ⟨o, ho, ho', rfl⟩ := (hmem x).mpr hx
        exact hne (hall o ho ho')
      · omega
    · exact iff_of_true hlow (.inr (.inl ⟨by omega, _, (hmem _).mp ⟨o, ho, ho', rfl⟩, hne⟩))

/-- A record of 255 bytes: `lastused` begins at 0. -/
theorem filled_long (hrecordlen : s.recordlen = 255) (hn : s.fh.available 255 = 255) :
    2 ≤ (s.filled 255).lastused ↔ Strippable (s.data 0) ((s.fh.contents.drop s.fh.pointer).take 255) := by
  have hsize : 255 ≤ s.fh.size - s.fh.pointer := by
    rw [File.available] at hn
    omega
  have hlength : ((s.fh.contents.drop s.fh.pointer).take 255).length = 255 :=
    (fetched_record hn (by decide) rfl).1
  have havail : s.fh.available 254 = 254 := by
    rw [File.available]
    omega
  obtain ⟨-, hmem⟩ := fetched_record havail (by decide) rfl
  have hsame : ∀ o, 2 ≤ o → o ≤ 255 → s.fetched 255 o = s.fetched 254 o := by
    intro o ho ho'
    rw [fetched, fetched, if_neg (by decide), if_neg (by decide), Memory.write, if_pos ⟨ho, by omega⟩,
      Memory.write, if_pos ⟨ho, by omega⟩]
  have hfirst : s.fetched 255 0 = s.data 0 := by
    rw [fetched, if_neg (by decide)]
    exact Memory.write_outside (.inl (by decide))
  have hlast : (s.filled 255).lastused = stripNulls (s.fetched 255) 256 0 := by
    rw [filled]
    dsimp only
    rw [if_pos (by rw [hrecordlen]; decide), hn]
    rfl
  have hstrip : Strippable (s.data 0) ((s.fh.contents.drop s.fh.pointer).take 255) ↔
      s.data 0 = 0 ∧ ∃ x ∈ (s.fh.contents.drop s.fh.pointer).take 254, x ≠ 0 := by
    rw [Strippable, List.take_take, hlength]
    constructor
    · rintro (hnil | ⟨hshort, -⟩ | ⟨-, hrest⟩)
      · rw [hnil] at hlength
        exact absurd hlength (by decide)
      · exact absurd hshort (by decide)
      · exact hrest
    · intro hrest
      exact .inr (.inr ⟨rfl, hrest⟩)
  rw [hlast, hstrip, stripNulls, hfirst]
  by_cases hzero : s.data 0 = 0
  · rw [if_pos hzero]
    show 2 ≤ stripNulls (s.fetched 255) 255 255 ↔ _
    obtain ⟨hone, hall⟩ | ⟨hlow, hhigh, hne⟩ :=
      stripNulls_spec (s.fetched 255) (show 2 ≤ 255 by decide) (le_refl 255) (le_refl 255)
    · refine iff_of_false (by omega) ?_
      rintro ⟨-, x, hx, hne⟩
      obtain ⟨o, ho, ho', rfl⟩ := (hmem x).mpr hx
      exact hne ((hsame o ho ho').symm.trans (hall o ho ho'))
    · exact iff_of_true hlow ⟨hzero, _, (hmem _).mp ⟨_, hlow, hhigh, rfl⟩, fun heq =>
        hne ((hsame _ hlow hhigh).trans heq)⟩
  · rw [if_neg hzero]
    exact iff_of_false (by decide) fun hrest => hzero hrest.1

/-- A refill leaves something to send unless a record is stripped to nothing. -/
theorem fatFileRead_filled (hrecordlen : s.recordlen ≤ 255) (h : s.fatFileRead = (false, s')) :
    s'.lastused ≤ 255 ∧ (s'.position ≤ s'.lastused ↔ s.Fillable) := by
  rw [fatFileRead_success h]
  refine ⟨filled_lastused_le _, ?_⟩
  show 2 ≤ _ ↔ _
  by_cases hzero : s.recordlen = 0
  · refine iff_of_true ?_ (.inl hzero)
    have hn : s.nextIo.fh.available 254 ≤ 254 := Nat.min_le_left _ _
    have hrec : ¬s.nextIo.recordlen ≠ 0 := not_not.mpr hzero
    rw [if_neg (not_not.mpr hzero), filled]
    dsimp only
    rw [if_neg hrec]
    split <;> omega
  · have hpos : 1 ≤ s.recordlen := Nat.pos_of_ne_zero hzero
    have hle : s.nextIo.fh.available s.recordlen ≤ s.recordlen := Nat.min_le_left _ _
    rw [if_pos hzero, Fillable, or_iff_right hzero]
    by_cases hn : s.nextIo.fh.available s.recordlen ≤ 254
    · exact filled_short (s := s.nextIo) rfl hpos hn
    · have hr : s.recordlen = 255 := by omega
      rw [hr] at hle ⊢
      rw [hr] at hn
      exact filled_long (s := s.nextIo) hr (by omega)

/-- The part of `fat_file_seek` that fills the buffer. -/
def seekFill (s : State) (position pos : ℕ) : Bool × State :=
  if s.fh.size ≥ pos then
    let l := s.fLseek pos
    if l.1 ≠ .ok then l.2.fail (parseError l.1 false) else l.2.fatFileRead
  else (false, s.missing position)

theorem fatFileSeek_eq (s : State) (position index : ℕ) :
    s.fatFileSeek position index =
      (let w := if s.dirty then s.fatFileWrite else (false, s)
      if w.1 then w
      else
        let r := w.2.seekFill position (position + s.headersize)
        if r.1 then r else (false, r.2.setPosition index)) := rfl

theorem seekFill_lastused {position pos : ℕ} (h : s.seekFill position pos = (false, s')) :
    s'.lastused ≤ 255 := by
  rw [seekFill] at h
  split at h
  · dsimp only at h
    split at h
    · cases h
    · rw [fatFileRead_success h]
      exact filled_lastused_le _
  · cases h
    exact show 2 ≤ 255 by decide

/-- A seek never leaves the position behind the end of the fill. -/
theorem fatFileSeek_filled {position index : ℕ} (h : s.fatFileSeek position index = (false, s')) :
    s'.lastused ≤ 255 ∧ s'.position ≤ s'.lastused := by
  rw [fatFileSeek_eq] at h
  dsimp only at h
  generalize (if s.dirty = true then s.fatFileWrite else (false, s)) = w at h
  split at h
  · next hw =>
    rw [h] at hw
    cases hw
  · split at h
    · next hr =>
      rw [h] at hr
      cases hr
    · next hr =>
      cases h
      have hfill : w.2.seekFill position (position + s.headersize) =
          (false, (w.2.seekFill position (position + s.headersize)).2) :=
        Prod.ext (Bool.eq_false_of_not_eq_true hr) rfl
      have hlast := seekFill_lastused hfill
      generalize (w.2.seekFill position (position + s.headersize)).2 = t at hlast
      refine ⟨hlast, ?_⟩
      show (if index + 2 > t.lastused then t.lastused else index + 2) ≤ t.lastused
      split <;> omega

/-! ### Opening -/

theorem fOpen_toCursor (s : State) (writable : Bool) : (s.fOpen writable).2.toCursor = s.toCursor := by
  rw [fOpen]
  split <;> rfl

theorem fLseek_toCursor (s : State) (pos : ℕ) : (s.fLseek pos).2.toCursor = s.toCursor := by
  rw [fLseek]
  split <;> rfl

theorem fRead_toCursor (s : State) (n : ℕ) : (s.fRead n).2.2.toCursor = s.toCursor := by
  rw [fRead]
  split <;> rfl

theorem fWrite_toCursor (s : State) (n : ℕ) (data : ℕ → UInt8) :
    (s.fWrite n data).2.2.toCursor = s.toCursor := by
  rw [fWrite]
  split <;> rfl

theorem openNew_toCursor (x00 : Bool) (tries : ℕ) (s : State) :
    (openNew x00 tries s).2.toCursor = s.toCursor := by
  induction tries generalizing s with
  | zero => rfl
  | succ tries ih =>
    rw [openNew]
    dsimp only
    split
    · split
      · exact (ih _).trans (fOpen_toCursor s true)
      · exact fOpen_toCursor s true
    · exact fOpen_toCursor s true

/-- The calls of FatFs that open a file leave the buffer as it is. -/
theorem openRecords_toCursor (ext : ℕ) (name : ℕ → UInt8) (x00 : Bool) (length : ℕ) (mode : Bool)
    (s : State) : (s.openRecords ext name x00 length mode).2.2.2.toCursor = s.toCursor := by
  rw [openRecords]
  split
  · dsimp only
    rw [createFile]
    dsimp only
    split
    · exact openNew_toCursor _ _ s
    · split
      · exact openNew_toCursor _ _ s
      · exact (fWrite_toCursor _ _ _).trans (openNew_toCursor _ _ s)
  · dsimp only
    split
    · exact fOpen_toCursor s true
    · cases x00 with
      | true =>
        rw [if_pos rfl]
        split
        · exact (fLseek_toCursor _ _).trans (fOpen_toCursor s true)
        · exact (fRead_toCursor _ _).trans ((fLseek_toCursor _ _).trans (fOpen_toCursor s true))
      | false =>
        rw [if_neg Bool.false_ne_true, if_neg (not_not.mpr rfl)]
        exact (fRead_toCursor _ _).trans (fOpen_toCursor s true)

theorem fatOpenRead_filled {x00 : Bool} {data : ℕ → UInt8} {fh : File} {io : ℕ → Io}
    (hread : ((fresh data fh io).fatOpenRead x00).read = true)
    (hallocated : ((fresh data fh io).fatOpenRead x00).allocated = true) :
    ((fresh data fh io).fatOpenRead x00).lastused ≤ 255 ∧
      ((fresh data fh io).fatOpenRead x00).position ≤ ((fresh data fh io).fatOpenRead x00).lastused := by
  have hcursor := fOpen_toCursor (fresh data fh io) false
  rw [fatOpenRead] at hread hallocated ⊢
  dsimp only at hread hallocated ⊢
  split at hread
  · exact absurd ((congrArg Cursor.read hcursor).symm.trans hread) Bool.false_ne_true
  · next hok =>
    rw [if_neg hok] at hallocated ⊢
    generalize ht : (if x00 = true then
        (((fresh data fh io).fOpen false).2.fLseek P00_HEADER_SIZE).2.setHeadersize P00_HEADER_SIZE
      else ((fresh data fh io).fOpen false).2) = t at hallocated ⊢
    have hrecordlen : t.startReading.recordlen = 0 := by
      rw [← ht]
      split
      · exact congrArg Cursor.recordlen ((fLseek_toCursor _ _).trans hcursor)
      · exact congrArg Cursor.recordlen hcursor
    obtain ⟨hlast, hiff⟩ := fatFileRead_filled (by rw [hrecordlen]; decide)
      (fatFileRead_allocated hallocated)
    exact ⟨hlast, hiff.mpr (.inl hrecordlen)⟩

theorem fOpen_success {writable : Bool} (h : (s.fOpen writable).1 = .ok) :
    (s.fOpen writable).2 = s.nextIo.opened writable := by
  rw [fOpen] at h ⊢
  cases hio : s.io 0 with
  | ok => rfl
  | short count => rfl
  | failed res ne =>
    rw [hio] at h
    exact absurd h ne

theorem fLseek_success {pos : ℕ} (h : (s.fLseek pos).1 = .ok) :
    (s.fLseek pos).2 = s.nextIo.setFh (s.fh.seek (if s.writable then pos else min pos s.fh.size)) := by
  rw [fLseek] at h ⊢
  cases hio : s.io 0 with
  | ok => rfl
  | short count => rfl
  | failed res ne =>
    rw [hio] at h
    exact absurd h ne

theorem fRead_success {n : ℕ} (h : (s.fRead n).1 = .ok) :
    s.fRead n = (.ok, s.fh.available n, s.nextIo.setFh (s.fh.read n)) := by
  rw [fRead] at h ⊢
  cases hio : s.io 0 with
  | ok => rfl
  | short count => rfl
  | failed res ne =>
    rw [hio] at h
    exact absurd h ne

/-- The place of the first record of a file. -/
def firstRecord (x00 : Bool) : ℕ := if x00 then P00_HEADER_SIZE else 1

/-- An existing file whose length byte could be read is at its first record. -/
theorem openRecords_success {ext length : ℕ} {name : ℕ → UInt8} {x00 : Bool} {data : ℕ → UInt8} {fh : File}
    {io : ℕ → Io} (hres : ((fresh data fh io).openRecords ext name x00 length true).1 = .ok)
    (hone : ((fresh data fh io).openRecords ext name x00 length true).2.1 = 1) :
    let t := ((fresh data fh io).openRecords ext name x00 length true).2.2
    t.1 = (fh.bytes (firstRecord x00 - 1)).toNat ∧ t.2.data = data ∧ t.2.fh.bytes = fh.bytes ∧
      t.2.fh.size = fh.size ∧ t.2.fh.pointer = firstRecord x00 := by
  have hopen : ((fresh data fh io).fOpen true).1 = .ok := by
    by_contra hne
    rw [openRecords, if_neg (by decide), if_pos hne] at hres
    exact hne hres
  generalize hs : (fresh data fh io).nextIo.opened true = s
  have hs2 : ((fresh data fh io).fOpen true).2 = s := (fOpen_success hopen).trans hs
  have hdata : s.data = data ∧ s.writable = true ∧ s.fh = { fh with pointer := 0 } := by
    rw [← hs]
    exact ⟨rfl, rfl, rfl⟩
  have hunfold : (fresh data fh io).openRecords ext name x00 length true =
      (let l := if x00 then s.fLseek P00_RECORDLEN_OFFSET else (.ok, s)
      if l.1 ≠ .ok then (l.1, 0, 0, l.2)
      else
        let d := l.2.fRead 1
        (d.1, d.2.1, (l.2.fh.bytes l.2.fh.pointer).toNat, d.2.2)) := by
    rw [openRecords, if_neg (by decide)]
    dsimp only
    rw [if_neg (not_not.mpr hopen), hs2]
  rw [hunfold] at hres hone ⊢
  obtain ⟨hdata, hwritable, hfh⟩ := hdata
  generalize hl : (if x00 = true then s.fLseek P00_RECORDLEN_OFFSET else (.ok, s)) = l at hres hone ⊢
  dsimp only at hres hone ⊢
  by_cases hseek : l.1 = .ok
  · rw [if_neg (not_not.mpr hseek)] at hres hone ⊢
    have hread := fRead_success hres
    rw [hread] at hone ⊢
    have havail : l.2.fh.available 1 = 1 := hone
    have hlfh : l.2.data = data ∧ l.2.fh = fh.seek (firstRecord x00 - 1) := by
      cases x00 with
      | true =>
        rw [if_pos rfl] at hl
        rw [← hl] at hseek ⊢
        rw [fLseek_success hseek, hwritable, if_pos rfl, hfh]
        exact ⟨hdata, rfl⟩
      | false =>
        rw [if_neg Bool.false_ne_true] at hl
        rw [← hl, hfh]
        refine ⟨hdata, ?_⟩
        show (⟨fh.bytes, fh.size, 0⟩ : File) = ⟨fh.bytes, max fh.size 0, 0⟩
        rw [Nat.max_zero]
    obtain ⟨hldata, hlfh⟩ := hlfh
    have hfirst : 1 ≤ firstRecord x00 := by cases x00 <;> decide
    rw [hlfh] at havail ⊢
    have hmin : min 1 (max fh.size (firstRecord x00 - 1) - (firstRecord x00 - 1)) = 1 := havail
    refine ⟨rfl, hldata, rfl, ?_, ?_⟩
    · show max fh.size (firstRecord x00 - 1) = fh.size
      omega
    · show firstRecord x00 - 1 + (fh.seek (firstRecord x00 - 1)).available 1 = firstRecord x00
      rw [havail]
      omega
  · rw [if_pos hseek] at hres
    exact absurd hres hseek

theorem openNew_success {x00 : Bool} {tries : ℕ} (h : (openNew x00 tries s).1 = .ok) :
    (openNew x00 tries s).2.fh = { s.fh with pointer := 0 } := by
  induction tries generalizing s with
  | zero => cases h
  | succ tries ih =>
    rw [openNew] at h ⊢
    dsimp only at h ⊢
    have hfh : (s.fOpen true).2.fh = s.fh ∨ (s.fOpen true).2.fh = { s.fh with pointer := 0 } := by
      rw [fOpen]
      split
      · exact .inl rfl
      · exact .inr rfl
    split at h
    · next hexist =>
      rw [if_pos hexist]
      split at h
      · next hx00 =>
        rw [if_pos hx00, ih h]
        obtain hfh | hfh := hfh <;> rw [hfh]
      · cases h
    · next hexist =>
      rw [if_neg hexist, fOpen_success h]
      rfl

/-- A new file is at its end. -/
theorem createFile_end {ext length : ℕ} {name : ℕ → UInt8} {type : FileType} (hsize : s.fh.size = 0)
    (h : (s.createFile ext name type length).1 = .ok) :
    (s.createFile ext name type length).2.fh.size = (s.createFile ext name type length).2.fh.pointer := by
  rw [createFile] at h ⊢
  dsimp only at h ⊢
  split at h
  · next hne => exact absurd h hne
  · next hok =>
    have hfh := openNew_success (not_not.mp hok)
    rw [if_neg hok]
    split
    · rw [hfh]
      exact hsize
    · next hhead =>
      rw [if_neg hhead] at h
      generalize (openNew (buildName ext (nameChars name) type).2 100 s).2 = t at h hfh ⊢
      generalize header (buildName ext (nameChars name) type).2 name length = head at h ⊢
      rw [fWrite] at h ⊢
      have hend : ∀ n data, (t.fh.write n data).size = (t.fh.write n data).pointer := by
        intro n data
        rw [hfh]
        show max s.fh.size (0 + n) = 0 + n
        omega
      split
      · exact hend _ _
      · exact hend _ _
      · next res ne hio =>
        rw [hio] at h
        exact absurd h ne

theorem startRecords_fillable {ext length : ℕ} (recordlen : ℕ) {name : ℕ → UInt8} {x00 mode : Bool}
    {data : ℕ → UInt8} {fh : File} {io : ℕ → Io} (hnew : mode = false → fh.size = 0)
    (hres : ((fresh data fh io).openRecords ext name x00 length mode).1 = .ok)
    (hone : ((fresh data fh io).openRecords ext name x00 length mode).2.1 = 1) :
    (((fresh data fh io).openRecords ext name x00 length mode).2.2.2.startRecords recordlen).Fillable ↔
      mode = false ∨ recordlen = 0 ∨
        Strippable (data 0) ((fh.contents.drop (firstRecord x00)).take recordlen) := by
  cases mode with
  | false =>
    refine iff_of_true (.inr (.inl ?_)) (.inl rfl)
    have hend := createFile_end (hnew rfl) hres
    have hdrop : ((fresh data fh io).createFile ext name .rel length).2.fh.contents.drop
        ((fresh data fh io).createFile ext name .rel length).2.fh.pointer = [] := by
      rw [← hend, ← File.contents_length]
      exact List.drop_length
    show ((((fresh data fh io).createFile ext name .rel length).2.fh.contents.drop
      ((fresh data fh io).createFile ext name .rel length).2.fh.pointer).take recordlen) = []
    rw [hdrop, List.take_nil]
  | true =>
    obtain ⟨-, hdata, hbytes, hsize, hpointer⟩ := openRecords_success hres hone
    generalize ((fresh data fh io).openRecords ext name x00 length true).2.2.2 = t at *
    have hcontents : t.fh.contents = fh.contents :=
      File.contents_congr hsize fun o _ => congrFun hbytes o
    show recordlen = 0 ∨ Strippable (t.data 0) ((t.fh.contents.drop t.fh.pointer).take recordlen) ↔ _
    rw [hdata, hcontents, hpointer]
    exact (or_iff_right (by decide)).symm

/-- The channel of a relative file that was opened has something to send unless the first record is
stripped to nothing. -/
theorem fatOpenRel_filled {ext length : ℕ} {name : ℕ → UInt8} {x00 mode : Bool} {data : ℕ → UInt8}
    {fh : File} {io : ℕ → Io} (hlength : length ≤ 255) (hnew : mode = false → fh.size = 0)
    (hread : ((fresh data fh io).fatOpenRel ext name x00 length mode).read = true)
    (hallocated : ((fresh data fh io).fatOpenRel ext name x00 length mode).allocated = true) :
    let s := (fresh data fh io).fatOpenRel ext name x00 length mode
    let recordlen := if length = 0 then (fh.bytes (firstRecord x00 - 1)).toNat else length
    s.lastused ≤ 255 ∧ (s.position ≤ s.lastused ↔ mode = false ∨ recordlen = 0 ∨
      Strippable (data 0) ((fh.contents.drop (firstRecord x00)).take recordlen)) := by
  have hcursor := openRecords_toCursor ext name x00 length mode (fresh data fh io)
  rw [fatOpenRel] at hread hallocated ⊢
  dsimp only at hread hallocated ⊢
  split at hread
  · exact absurd ((congrArg Cursor.read hcursor).symm.trans hread) Bool.false_ne_true
  · next hok =>
    have hres := not_not.mp fun hne => hok (.inl hne)
    have hone := not_not.mp fun hne => hok (.inr hne)
    rw [if_neg hok] at hallocated ⊢
    have hfillable := startRecords_fillable (if mode = true ∧ length = 0 then
      ((fresh data fh io).openRecords ext name x00 length mode).2.2.1 else length) hnew hres hone
    have hrecordlen : (if mode = true ∧ length = 0 then
        ((fresh data fh io).openRecords ext name x00 length mode).2.2.1 else length) ≤ 255 ∧
        (mode = true → (if mode = true ∧ length = 0 then
          ((fresh data fh io).openRecords ext name x00 length mode).2.2.1 else length) =
          if length = 0 then (fh.bytes (firstRecord x00 - 1)).toNat else length) := by
      cases mode with
      | false => exact ⟨by rw [if_neg (by simp)]; exact hlength, fun hfalse => by cases hfalse⟩
      | true =>
        rw [(openRecords_success hres hone).1]
        have hbyte := (fh.bytes (firstRecord x00 - 1)).toNat_lt
        refine ⟨?_, fun _ => by simp⟩
        split <;> omega
    generalize (if mode = true ∧ length = 0 then
      ((fresh data fh io).openRecords ext name x00 length mode).2.2.1 else length) = recordlen at *
    have ht : (((fresh data fh io).openRecords ext name x00 length mode).2.2.2.startRecords recordlen).recordlen =
      recordlen := rfl
    generalize ((fresh data fh io).openRecords ext name x00 length mode).2.2.2.startRecords recordlen = t at *
    have hallocated' : t.fatFileRead.2.allocated = true := by
      split at hallocated <;> exact hallocated
    obtain ⟨hlast, hiff⟩ := fatFileRead_filled (by rw [ht]; exact hrecordlen.1)
      (fatFileRead_allocated hallocated')
    have hresult : t.fatFileRead.2.lastused ≤ 255 ∧
        (t.fatFileRead.2.position ≤ t.fatFileRead.2.lastused ↔ mode = false ∨
          (if length = 0 then (fh.bytes (firstRecord x00 - 1)).toNat else length) = 0 ∨
          Strippable (data 0) ((fh.contents.drop (firstRecord x00)).take
            (if length = 0 then (fh.bytes (firstRecord x00 - 1)).toNat else length))) := by
      refine ⟨hlast, hiff.trans (hfillable.trans ?_)⟩
      cases mode with
      | false => exact iff_of_true (.inl rfl) (.inl rfl)
      | true => rw [hrecordlen.2 rfl]
    split
    · exact hresult
    · exact hresult

end State

end NoDiskEmu.Fat
