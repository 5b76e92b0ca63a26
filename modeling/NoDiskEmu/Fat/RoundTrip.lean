import NoDiskEmu.Buffers.Talk
import NoDiskEmu.Fat.Open

/-! What is written to a FAT file is what is read from it. -/

namespace NoDiskEmu.Fat

open Library

namespace State

/-- No coming call of FatFs fails. -/
def NoFault (s : State) : Prop := s.io = fun _ => .ok

theorem nextIo_eq {s : State} (h : s.NoFault) : s.nextIo = s := by
  rw [NoFault] at h
  cases s
  simp_all [nextIo]

variable {s : State}

theorem fRead_ok (h : s.NoFault) (n : ℕ) :
    s.fRead n = (.ok, s.fh.available n, s.setFh (s.fh.read n)) := by
  have h0 : s.io 0 = .ok := congrFun h 0
  rw [fRead, h0]
  simp only [nextIo_eq h]

theorem fWrite_ok (h : s.NoFault) (n : ℕ) (data : ℕ → UInt8) :
    s.fWrite n data = (.ok, n, s.setFh (s.fh.write n data)) := by
  have h0 : s.io 0 = .ok := congrFun h 0
  rw [fWrite, h0]
  simp only [nextIo_eq h]

theorem fLseek_ok (h : s.NoFault) (pos : ℕ) :
    s.fLseek pos =
      (.ok, s.setFh (s.fh.seek (if s.writable then pos else min pos s.fh.size))) := by
  have h0 : s.io 0 = .ok := congrFun h 0
  rw [fLseek, h0]
  simp only [nextIo_eq h]

theorem fOpen_ok (h : s.NoFault) (writable : Bool) :
    s.fOpen writable = (.ok, s.opened writable) := by
  have h0 : s.io 0 = .ok := congrFun h 0
  rw [fOpen, h0]
  simp only [nextIo_eq h]

/-- The state after `n` bytes of `data` were written to the file. -/
def written (s : State) (data : ℕ → UInt8) (n : ℕ) : State :=
  { s with
    data
    dirty := false
    mustflush := false
    position := 2
    lastused := 2
    fh := s.fh.write n fun i => data (2 + i)
    fptr := s.fh.pointer + n - s.headersize }

/-- A flush writes the bytes up to `last`, or a record that is filled up with zeros. -/
theorem writeData_ok (h : s.NoFault) {last : ℕ}
    (hlast : (if s.mustflush then s.lastused else (s.position + 255) % 256) = last) :
    s.writeData = (false, s.written
      (Memory.write s.data (last + 1) (s.recordlen + 1 - last) fun _ => 0)
      (uintPred (if s.recordlen ≠ 0 then (s.recordlen + 1) % 256 else last))) := by
  rw [writeData, hlast]
  generalize Memory.write s.data (last + 1) (s.recordlen + 1 - last) (fun _ => 0) = data
  generalize (if s.recordlen ≠ 0 then (s.recordlen + 1) % 256 else last) = lastused
  have hio : ({ s with data, lastused } : State).NoFault := h
  rw [fWrite_ok hio, if_neg (not_not.mpr rfl), if_neg (not_not.mpr rfl)]
  rfl

/-! ### Writing -/

/-- The bytes of the buffer that are not yet in the file. -/
def pending (s : State) (n : ℕ) : List UInt8 := (List.range n).map fun i => s.data (2 + i)

/-- A file that is open for writing, the `n` bytes in its buffer included, and what has been sent so
far. -/
structure Writing (s : State) (sent : List UInt8) (n : ℕ) : Prop where
  noFault : s.NoFault
  recordlen : s.recordlen = 0
  allocated : s.allocated = true
  write : s.write = true
  refill : s.refill = .fatFileWrite
  pointer : s.fh.pointer = s.fh.size
  fptr : s.fptr = s.fh.size - s.headersize
  le : n ≤ 254
  position : s.position = (n + 2) % 256
  mustflush : s.mustflush = decide (n = 254)
  lastused : s.lastused ≤ 255
  full : n = 254 → s.lastused = 255
  sent : s.fh.contents ++ s.pending n = sent

variable {sent : List UInt8} {n : ℕ}

/-- All that was sent is in the file after a flush. -/
theorem Writing.writeData (h : s.Writing sent n) :
    ∃ s', s.writeData = (false, s') ∧ s'.Writing sent 0 ∧ s'.fh.contents = sent := by
  have hlast : (if s.mustflush then s.lastused else (s.position + 255) % 256) = n + 1 := by
    have hle := h.le
    rw [h.mustflush, h.position]
    by_cases hn : n = 254
    · rw [if_pos (decide_eq_true hn), h.full hn, hn]
    · rw [if_neg (by simpa using hn)]
      omega
  have hdata : Memory.write s.data (n + 1 + 1) (s.recordlen + 1 - (n + 1)) (fun _ => 0) = s.data := by
    rw [h.recordlen]
    exact Memory.write_same fun i hi => absurd hi (by omega)
  have hcontents : (s.fh.write n fun i => s.data (2 + i)).contents = sent := by
    rw [File.contents_write_end h.pointer]
    exact h.sent
  have hsize : max s.fh.size (s.fh.pointer + n) = s.fh.pointer + n := by
    rw [h.pointer]
    omega
  rw [writeData_ok h.noFault hlast, hdata, if_neg (not_not.mpr h.recordlen), uintPred_succ (h.le.trans (by decide))]
  refine ⟨_, rfl, ?_, hcontents⟩
  exact {
    noFault := h.noFault
    recordlen := h.recordlen
    allocated := h.allocated
    write := h.write
    refill := h.refill
    pointer := hsize.symm
    fptr := congrArg (· - s.headersize) hsize.symm
    le := by decide
    position := rfl
    mustflush := rfl
    lastused := show 2 ≤ 255 by decide
    full := fun h0 => absurd h0 (by decide)
    sent := (List.append_nil _).trans hcontents }

theorem Writing.fatFileWrite (h : s.Writing sent n) :
    ∃ s', s.fatFileWrite = (false, s') ∧ s'.Writing sent 0 ∧ s'.fh.contents = sent := by
  obtain ⟨s', hwrite, hrest⟩ := h.writeData
  refine ⟨s', ?_, hrest⟩
  rw [State.fatFileWrite]
  dsimp only
  rw [if_neg (not_not.mpr h.fptr), if_neg (not_not.mpr rfl), hwrite]
  dsimp only
  rw [if_neg (by decide), if_neg (by rw [h.fptr]; omega)]

theorem Writing.callRefill (h : s.Writing sent n) :
    ∃ s', s.callRefill = (false, s') ∧ s'.Writing sent 0 ∧ s'.fh.contents = sent := by
  obtain ⟨s', hwrite, hrest⟩ := h.fatFileWrite
  refine ⟨s', ?_, hrest⟩
  rw [State.callRefill, h.refill]
  exact hwrite

/-- A byte goes to the end of what was sent. -/
theorem Writing.put (h : s.Writing sent n) (hn : n < 254) (x : UInt8) :
    ({ s with toCursor := s.toCursor.put x, dirty := true } : State).Writing (sent ++ [x]) (n + 1) := by
  have hpos : s.position = n + 2 := by
    rw [h.position]
    exact Nat.mod_eq_of_lt (by omega)
  have hpending : (List.range (n + 1)).map (fun i => Function.update s.data s.position x (2 + i)) =
      s.pending n ++ [x] := by
    rw [List.range_succ, List.map_append, pending, hpos]
    congr 1
    · apply List.map_congr_left
      intro i hi
      exact Function.update_of_ne (by have := List.mem_range.mp hi; omega) _ _
    · rw [List.map_singleton, Nat.add_comm 2 n, Function.update_self]
  exact {
    noFault := h.noFault
    recordlen := h.recordlen
    allocated := h.allocated
    write := h.write
    refill := h.refill
    pointer := h.pointer
    fptr := h.fptr
    le := by omega
    position := by
      show (s.position + 1) % 256 = (n + 1 + 2) % 256
      rw [hpos]
    mustflush := by
      show (s.mustflush || decide ((s.position + 1) % 256 = 0)) = decide (n + 1 = 254)
      rw [h.mustflush, hpos, decide_eq_false (by omega), Bool.false_or]
      exact decide_eq_decide.mpr (by omega)
    lastused := by
      show (if s.lastused < s.position then s.position else s.lastused) ≤ 255
      have := h.lastused
      split <;> omega
    full := fun hfull => by
      show (if s.lastused < s.position then s.position else s.lastused) = 255
      have := h.lastused
      split <;> omega
    sent := by
      show s.fh.contents ++
        (List.range (n + 1)).map (fun i => Function.update s.data s.position x (2 + i)) = _
      rw [hpending, ← List.append_assoc, h.sent] }

/-- What the listen loops have sent to a file. -/
def Sent (s : State) (sent : List UInt8) : Prop := ∃ n, s.Writing sent n

theorem Sent.listenByte (h : s.Sent sent) (x : UInt8) (eoi : Bool) :
    ∃ s', channel.listenByte s x eoi = .more s' ∧ s'.Sent (sent ++ [x]) := by
  have hstore : ∀ {t : State} {m : ℕ}, t.Writing sent m → m < 254 →
      ∃ s', channel.storeByte t x eoi = .more s' ∧ s'.Sent (sent ++ [x]) := by
    intro t m ht hm
    refine ⟨_, ?_, m + 1, ht.put hm x⟩
    rw [Channel.storeByte]
    dsimp only
    exact if_neg fun hboth => hboth.1 ht.recordlen
  obtain ⟨n, h⟩ := h
  rw [Channel.listenByte]
  by_cases hn : n = 254
  · have hflush : (channel.cursor s).mustflush = true := h.mustflush.trans (decide_eq_true hn)
    obtain ⟨t, hrefill, ht, -⟩ := h.callRefill
    have hmore : channel.refillFind s = .more t := by
      have hcall : channel.refill s = (false, t) := hrefill
      have hfind : channel.find t = some t := if_pos ht.allocated
      rw [Channel.refillFind, hcall]
      dsimp only
      rw [if_neg (by decide), hfind]
    rw [if_pos hflush, hmore]
    exact hstore ht (by decide)
  · have hflush : ¬(channel.cursor s).mustflush = true := by
      show ¬s.mustflush = true
      rw [h.mustflush]
      simpa using hn
    rw [if_neg hflush]
    exact hstore h (by have := h.le; omega)

theorem Sent.listenBytes (h : s.Sent sent) (xs : List (UInt8 × Bool)) :
    ∃ s', channel.listenBytes s xs = .more s' ∧ s'.Sent (sent ++ xs.map Prod.fst) := by
  induction xs generalizing s sent with
  | nil => exact ⟨s, rfl, by simpa using h⟩
  | cons x xs ih =>
    obtain ⟨t, hbyte, ht⟩ := h.listenByte x.1 x.2
    obtain ⟨s', hrest, hs'⟩ := ih ht
    refine ⟨s', ?_, ?_⟩
    · rw [Channel.listenBytes, hbyte]
      exact hrest
    · rw [List.map_cons, List.append_cons]
      exact hs'

/-- The state after some LISTEN transactions; it stays as it is when one of them breaks off. -/
def listens (s : State) : List (List (UInt8 × Bool)) → State
  | [] => s
  | t :: ts =>
    match channel.listenLoop s t with
    | .more s => listens s ts
    | .stop s => s
    | .null => s

theorem Sent.listens (h : s.Sent sent) (ts : List (List (UInt8 × Bool))) :
    (s.listens ts).Sent (sent ++ ts.flatten.map Prod.fst) := by
  induction ts generalizing s sent with
  | nil => simpa [State.listens] using h
  | cons t ts ih =>
    obtain ⟨s', hbytes, hs'⟩ := h.listenBytes t
    have hloop : channel.listenLoop s t = .more s' := by
      obtain ⟨n, h⟩ := h
      have hfind : channel.find s = some s := if_pos h.allocated
      rw [Channel.listenLoop, hfind]
      dsimp only
      rw [if_pos (show (channel.cursor s).write = true from h.write), hbytes]
    rw [State.listens, hloop, List.flatten_cons, List.map_append, ← List.append_assoc]
    exact ih hs'

/-- Closing the file leaves what was sent in it. -/
theorem Sent.fatFileClose (h : s.Sent sent) : (s.fatFileClose).2.fh.contents = sent := by
  obtain ⟨n, h⟩ := h
  obtain ⟨s', hrefill, -, hcontents⟩ := h.callRefill
  rw [State.fatFileClose, if_neg (by rw [h.allocated]; decide)]
  dsimp only
  rw [if_pos h.write, hrefill]
  exact hcontents

theorem Writing.startWriting (hs : s.NoFault) (hrecordlen : s.recordlen = 0)
    (halloc : s.allocated = true) (hmust : s.mustflush = false) (hpointer : s.fh.pointer = s.fh.size)
    (hfptr : s.fptr = s.fh.size - s.headersize) : s.startWriting.Writing s.fh.contents 0 where
  noFault := hs
  recordlen := hrecordlen
  allocated := halloc
  write := rfl
  refill := rfl
  pointer := hpointer
  fptr := hfptr
  le := by decide
  position := rfl
  mustflush := hmust
  lastused := show 2 ≤ 255 by decide
  full := fun h => absurd h (by decide)
  sent := List.append_nil _

variable {data : ℕ → UInt8} {fh : File} {io : ℕ → Io}

theorem openNew_ok (h : s.NoFault) (x00 : Bool) (tries : ℕ) :
    openNew x00 (tries + 1) s = (.ok, s.opened true) := by
  rw [openNew, fOpen_ok h]
  rfl

/-- A list as it is written to a file and read again. -/
theorem range_map_getD (xs : List UInt8) : (List.range xs.length).map (fun i => xs.getD i 0) = xs := by
  apply List.ext_getElem
  · simp
  · intro i hi hi'
    simp [List.getElem_map, hi']

/-- A file that was created, with its header. -/
structure Created (s₀ s : State) (head : List UInt8) : Prop where
  contents : s.fh.contents = head
  pointer : s.fh.pointer = s.fh.size
  headersize : s.headersize = head.length
  eq : s = ((s₀.opened true).setFh s.fh).setHeadersize s.headersize

theorem createFile_ok (h : s.NoFault) (hsize : s.fh.size = 0) (hhead : s.headersize = 0) (mode : ℕ)
    (name : ℕ → UInt8) (type : FileType) (recordlen : ℕ) :
    ∃ s', s.createFile mode name type recordlen = (.ok, s') ∧
      Created s s' (header (buildName mode (nameChars name) type).2 name recordlen) := by
  rw [createFile, openNew_ok h, if_neg (not_not.mpr rfl)]
  have hempty : (s.opened true).fh.contents = [] :=
    List.eq_nil_of_length_eq_zero (File.contents_length.trans hsize)
  generalize header (buildName mode (nameChars name) type).2 name recordlen = head
  by_cases hnil : head = []
  · rw [if_pos hnil]
    refine ⟨_, rfl, hempty.trans hnil.symm, hsize.symm, ?_, rfl⟩
    rw [hnil]
    exact hhead
  · have hopened : ((s.opened true).setHeadersize head.length).NoFault := h
    rw [if_neg hnil, fWrite_ok hopened]
    refine ⟨_, rfl, ?_, ?_, rfl, rfl⟩
    · show ((s.opened true).fh.write head.length fun i => head.getD i 0).contents = head
      rw [File.contents_write_end hsize.symm, range_map_getD, hempty, List.nil_append]
    · show 0 + head.length = max s.fh.size (0 + head.length)
      omega

/-- A new file holds its header. -/
theorem sent_fatOpenWrite (mode : ℕ) (name : ℕ → UInt8) (type : FileType) (hio : io = fun _ => .ok)
    (hsize : fh.size = 0) :
    ((fresh data fh io).fatOpenWrite mode name type).Sent
      (header (buildName mode (nameChars name) type).2 name 0) := by
  have hfault : (fresh data fh io).NoFault := hio
  obtain ⟨s', hcreate, hcreated⟩ := createFile_ok hfault hsize rfl mode name type 0
  rw [fatOpenWrite, hcreate, if_neg (not_not.mpr rfl), ← hcreated.contents]
  have heq := hcreated.eq
  refine ⟨0, Writing.startWriting ?_ ?_ ?_ ?_ hcreated.pointer ?_⟩
  · rw [heq]
    exact hio
  · rw [heq]
    rfl
  · rw [heq]
    rfl
  · rw [heq]
    rfl
  · have hlength : s'.fh.size = s'.headersize := by
      rw [hcreated.headersize, ← hcreated.contents, File.contents_length]
    rw [hlength, Nat.sub_self, heq]
    rfl

/-- A file that is opened for appending keeps its contents. -/
theorem sent_fatOpenAppend (x00 : Bool) (hio : io = fun _ => .ok) :
    ((fresh data fh io).fatOpenAppend x00).Sent fh.contents := by
  have hfault : (fresh data fh io).NoFault := hio
  have hcontents : (((fresh data fh io).opened true).fh.seek fh.size).contents = fh.contents :=
    File.contents_congr (Nat.max_self _) fun _ _ => rfl
  rw [fatOpenAppend, fOpen_ok hfault]
  dsimp only
  rw [if_pos rfl, ← hcontents]
  cases x00 with
  | true =>
    have hopened : (((fresh data fh io).opened true).setHeadersize P00_HEADER_SIZE).NoFault := hio
    rw [if_pos rfl, fLseek_ok hopened]
    exact ⟨0, Writing.startWriting hio rfl rfl rfl (Nat.max_self _).symm rfl⟩
  | false =>
    have hopened : ((fresh data fh io).opened true).NoFault := hio
    rw [if_neg Bool.false_ne_true, fLseek_ok hopened]
    exact ⟨0, Writing.startWriting hio rfl rfl rfl (Nat.max_self _).symm rfl⟩

/-! ### Reading -/

/-- The data of the buffer after `n` bytes were read from the file. -/
def fetched (s : State) (n : ℕ) : ℕ → UInt8 :=
  let data := Memory.write s.data 2 n fun i => s.fh.bytes (s.fh.pointer + i)
  if n = 0 then Function.update data 2 (if s.recordlen ≠ 0 then 255 else 13) else data

/-- The state after `fat_file_read` asked for `want` bytes. -/
def filled (s : State) (want : ℕ) : State :=
  let n := s.fh.available want
  let bytesread := if n = 0 then 1 else n
  { s with
    fptr := s.fh.pointer - s.headersize
    fh := s.fh.read want
    data := s.fetched n
    position := 2
    lastused := if s.recordlen ≠ 0 then stripNulls (s.fetched n) 256 ((bytesread + 1) % 256)
      else (bytesread + 1) % 256
    sendeoi := bytesread < 254 ∨ (s.fh.read want).size - (s.fh.read want).pointer = 0 ∨
      s.recordlen ≠ 0 }

theorem fatFileRead_ok (h : s.NoFault) :
    s.fatFileRead = (false, s.filled (if s.recordlen ≠ 0 then s.recordlen else 254)) := by
  have hio : ({ s with fptr := s.fh.pointer - s.headersize } : State).NoFault := h
  rw [State.fatFileRead]
  dsimp only
  generalize (if s.recordlen ≠ 0 then s.recordlen else 254) = want
  rw [fRead_ok hio, if_neg (not_not.mpr rfl)]
  rfl

theorem channel_lawful : channel.Lawful where
  cursor_store _ _ := rfl
  store_store _ _ _ := rfl
  direct_store _ _ := rfl

/-- A file without records that is open for reading. -/
structure Reading (s : State) : Prop where
  noFault : s.NoFault
  recordlen : s.recordlen = 0
  allocated : s.allocated = true
  read : s.read = true
  refill : s.refill = .fatFileRead

/-- What a file delivers from its pointer on: an empty file is a single carriage return. -/
def delivered (xs : List UInt8) : List UInt8 := if xs = [] then [13] else xs

/-- A refill takes the next 254 bytes of the file. -/
theorem Reading.fatFileRead (h : s.Reading) :
    ∃ s', s.fatFileRead = (false, s') ∧ s'.Reading ∧ s'.fh = s.fh.read 254 ∧ s'.position = 2 ∧
      2 ≤ s'.lastused ∧ s'.lastused ≤ 255 ∧
      s'.fill = delivered ((s.fh.contents.drop s.fh.pointer).take 254) ∧
      s'.sendeoi = decide ((s.fh.contents.drop s.fh.pointer).length ≤ 254) := by
  have hlen : (s.fh.contents.drop s.fh.pointer).length = s.fh.size - s.fh.pointer := by
    rw [List.length_drop, File.contents_length]
  have hchunk := File.range_available (f := s.fh) (n := 254)
  have hn : s.fh.available 254 = min 254 (s.fh.size - s.fh.pointer) := rfl
  rw [fatFileRead_ok h.noFault, if_neg (not_not.mpr h.recordlen)]
  refine ⟨_, rfl, ⟨h.noFault, h.recordlen, h.allocated, h.read, h.refill⟩, rfl, rfl, ?_⟩
  have hlast : (s.filled 254).lastused = (if s.fh.available 254 = 0 then 1 else s.fh.available 254) + 1 := by
    rw [filled]
    dsimp only
    rw [if_neg (not_not.mpr h.recordlen), Nat.mod_eq_of_lt (by split <;> omega)]
  refine ⟨by rw [hlast]; split <;> omega, by rw [hlast]; split <;> omega, ?_, ?_⟩
  · rw [Cursor.fill, hlast]
    show (List.range _).map (fun i => s.fetched (s.fh.available 254) (2 + i)) = _
    by_cases hzero : s.fh.available 254 = 0
    · have hempty : (s.fh.contents.drop s.fh.pointer).take 254 = [] := by
        rw [← hchunk, hzero]
        rfl
      rw [if_pos hzero, hempty, delivered, if_pos rfl, hzero]
      show [s.fetched 0 2] = [13]
      rw [fetched, if_pos rfl, if_neg (not_not.mpr h.recordlen), Function.update_self]
    · have hne : (s.fh.contents.drop s.fh.pointer).take 254 ≠ [] := by
        intro hnil
        have hlength := congrArg List.length hnil
        rw [← hchunk, List.length_map, List.length_range] at hlength
        exact hzero hlength
      rw [if_neg hzero, delivered, if_neg hne, ← hchunk]
      show (List.range (s.fh.available 254 + 1 + 1 - 2)).map _ = _
      rw [Nat.add_assoc, Nat.add_sub_cancel]
      apply List.map_congr_left
      intro i hi
      rw [fetched, if_neg hzero]
      exact Memory.write_inside (List.mem_range.mp hi)
  · rw [hlen, filled]
    refine decide_eq_decide.mpr ?_
    rw [h.recordlen]
    show (_ < 254 ∨ s.fh.size - (s.fh.pointer + s.fh.available 254) = 0 ∨ (0 : ℕ) ≠ 0) ↔ _
    split <;> omega

theorem afterFill_last (h : s.Reading) (heoi : s.sendeoi = true) :
    ∃ s', channel.afterFill s = .stop s' :=
  ⟨_, if_pos ⟨heoi, Bool.false_ne_true, h.recordlen, Bool.false_ne_true⟩⟩

theorem afterFill_more {s' : State} (h : s.Reading) (heoi : s.sendeoi = false)
    (hrefill : (channel.store s s.toCursor.spent).fatFileRead = (false, s')) (hs' : s'.Reading) :
    channel.afterFill s = .more s' := by
  have hcall : channel.refill (channel.store s s.toCursor.spent) = (false, s') := by
    show State.callRefill _ = _
    rw [State.callRefill, show (channel.store s s.toCursor.spent).refill = .fatFileRead from h.refill]
    exact hrefill
  have hfind : channel.find s' = some s' := if_pos hs'.allocated
  have hnot : ¬(channel.cursor s).spent.sendeoi = true := by
    show ¬s.sendeoi = true
    rw [heoi]
    exact Bool.false_ne_true
  have hrefillFind : channel.refillFind (channel.store s s.toCursor.spent) = .more s' := by
    rw [Channel.refillFind, hcall]
    dsimp only
    rw [if_neg Bool.false_ne_true, hfind]
  rw [Channel.afterFill, if_neg fun hall => hnot hall.1]
  exact hrefillFind

/-- The refills of a file deliver its contents from the pointer on. -/
theorem Reading.delivers (h : s.Reading) :
    ∃ s', s.fatFileRead = (false, s') ∧ s'.Reading ∧
      channel.Delivers s' (delivered (s.fh.contents.drop s.fh.pointer)) := by
  induction hk : (s.fh.contents.drop s.fh.pointer).length using Nat.strong_induction_on
    generalizing s with
  | _ k ih =>
    obtain ⟨s', hread, hs', hfh, hpos, hlow, hhigh, hfill, heoi⟩ := h.fatFileRead
    refine ⟨s', hread, hs', ?_⟩
    have hle : (channel.cursor s').position ≤ (channel.cursor s').lastused := by
      show s'.position ≤ s'.lastused
      omega
    by_cases hlast : (s.fh.contents.drop s.fh.pointer).length ≤ 254
    · rw [decide_eq_true hlast] at heoi
      rw [List.take_of_length_le hlast] at hfill
      have hend := Channel.Delivers.last hs'.read hle hhigh heoi (afterFill_last hs' heoi)
      rwa [show (channel.cursor s').fill = _ from hfill] at hend
    · rw [decide_eq_false hlast] at heoi
      have ht : (channel.store s' s'.toCursor.spent).Reading :=
        ⟨hs'.noFault, hs'.recordlen, hs'.allocated, hs'.read, hs'.refill⟩
      have hlen : (s.fh.contents.drop s.fh.pointer).length = s.fh.size - s.fh.pointer := by
        rw [List.length_drop, File.contents_length]
      have hrest : (channel.store s' s'.toCursor.spent).fh.contents.drop
          (channel.store s' s'.toCursor.spent).fh.pointer =
          (s.fh.contents.drop s.fh.pointer).drop 254 := by
        rw [show (channel.store s' s'.toCursor.spent).fh = s'.fh from rfl, hfh, List.drop_drop]
        refine congrArg₂ List.drop ?_ rfl
        show s.fh.pointer + min 254 (s.fh.size - s.fh.pointer) = s.fh.pointer + 254
        omega
      obtain ⟨s'', hread', hs'', hdelivers⟩ := ih _ (by rw [hrest, List.length_drop]; omega) ht rfl
      rw [hrest] at hdelivers
      have hmore := Channel.Delivers.more hs'.read hle hhigh heoi (afterFill_more hs' heoi hread' hs'')
        hdelivers
      have hsplit : delivered (s.fh.contents.drop s.fh.pointer) = (channel.cursor s').fill ++
          delivered ((s.fh.contents.drop s.fh.pointer).drop 254) := by
        have hlong : 254 < (s.fh.contents.drop s.fh.pointer).length := Nat.lt_of_not_le hlast
        rw [show (channel.cursor s').fill = _ from hfill]
        generalize s.fh.contents.drop s.fh.pointer = rest at hlong
        have htake : rest.take 254 ≠ [] := by
          rw [← List.length_pos_iff, List.length_take]
          omega
        have hdrop : rest.drop 254 ≠ [] := by
          rw [← List.length_pos_iff, List.length_drop]
          omega
        have hall : rest ≠ [] := by
          rw [← List.length_pos_iff]
          omega
        rw [delivered, delivered, delivered, if_neg htake, if_neg hdrop, if_neg hall,
          List.take_append_drop]
      rwa [hsplit]

/-- What an open file delivers; `n` is the length of its header. -/
theorem delivers_fatOpenRead (data : ℕ → UInt8) (x00 : Bool) (hio : io = fun _ => .ok)
    (hsize : x00 = true → P00_HEADER_SIZE ≤ fh.size) :
    channel.Delivers ((fresh data fh io).fatOpenRead x00)
      (delivered (fh.contents.drop (if x00 then P00_HEADER_SIZE else 0))) ∧
      ((fresh data fh io).fatOpenRead x00).allocated = true := by
  have hfault : (fresh data fh io).NoFault := hio
  rw [fatOpenRead, fOpen_ok hfault, if_neg (not_not.mpr rfl)]
  dsimp only
  cases x00 with
  | true =>
    have hopened : ((fresh data fh io).opened false).NoFault := hio
    have hseek : min P00_HEADER_SIZE fh.size = P00_HEADER_SIZE := Nat.min_eq_left (hsize rfl)
    rw [if_pos rfl, if_pos rfl, fLseek_ok hopened]
    obtain ⟨s', hread, hs', hdelivers⟩ := Reading.delivers
      (s := ((((fresh data fh io).opened false).setFh _).setHeadersize P00_HEADER_SIZE).startReading)
      ⟨hio, rfl, rfl, rfl, rfl⟩
    rw [hread]
    refine ⟨?_, hs'.allocated⟩
    have hcontents : (((fresh data fh io).opened false).fh.seek
        (min P00_HEADER_SIZE fh.size)).contents = fh.contents :=
      File.contents_congr (Nat.max_eq_left (Nat.min_le_right _ _)) fun _ _ => rfl
    have hrest : (((fresh data fh io).opened false).fh.seek (min P00_HEADER_SIZE fh.size)).contents.drop
        (min P00_HEADER_SIZE fh.size) = fh.contents.drop P00_HEADER_SIZE := by
      rw [hcontents, hseek]
    rw [← hrest]
    exact hdelivers
  | false =>
    rw [if_neg Bool.false_ne_true, if_neg Bool.false_ne_true]
    obtain ⟨s', hread, hs', hdelivers⟩ := Reading.delivers
      (s := ((fresh data fh io).opened false).startReading) ⟨hio, rfl, rfl, rfl, rfl⟩
    rw [hread]
    exact ⟨hdelivers, hs'.allocated⟩

end State

/-! ### The round trip -/

/-- The file after it was created, sent some LISTEN transactions, and closed. -/
def createFile (mode : ℕ) (name : ℕ → UInt8) (type : FileType) (data : ℕ → UInt8) (fh : File)
    (ts : List (List (UInt8 × Bool))) : File :=
  (((State.fresh data fh fun _ => .ok).fatOpenWrite mode name type).listens ts).fatFileClose.2.fh

/-- The file after it was opened for appending, sent some LISTEN transactions, and closed. -/
def appendFile (x00 : Bool) (data : ℕ → UInt8) (fh : File) (ts : List (List (UInt8 × Bool))) : File :=
  (((State.fresh data fh fun _ => .ok).fatOpenAppend x00).listens ts).fatFileClose.2.fh

/-- The first `n` bytes that a TALK to the open file gets, each with its EOI. -/
def readFile (x00 : Bool) (data : ℕ → UInt8) (fh : File) (n : ℕ) : List (UInt8 × Bool) :=
  (State.channel.talkLoop ((State.fresh data fh fun _ => .ok).fatOpenRead x00) n).1

theorem p00Header_length (name : ℕ → UInt8) (recordlen : ℕ) :
    (p00Header name recordlen).length = P00_HEADER_SIZE := by
  simp [p00Header, p00marker, CBM_NAME_LENGTH, P00_HEADER_SIZE]

/-- While no call of FatFs fails, a file holds its header and all that was sent to it, before and after
it is opened again for appending, and delivers what was sent with EOI on the last byte. -/
theorem fatFile_roundTrip (mode : ℕ) (name : ℕ → UInt8) (type : FileType) (bytes : ℕ → UInt8)
    (pointer : ℕ) (data data' data'' : ℕ → UInt8) (ts us : List (List (UInt8 × Bool))) :
    let x00 := (buildName mode (nameChars name) type).2
    let head := header x00 name 0
    let xs := ts.flatten.map Prod.fst
    let ys := us.flatten.map Prod.fst
    let file := createFile mode name type data ⟨bytes, 0, pointer⟩ ts
    let appended := appendFile x00 data' file us
    head = (if x00 then p00Header name 0 else []) ∧ file.contents = head ++ xs ∧
      appended.contents = head ++ xs ++ ys ∧
      ∀ n, readFile x00 data'' appended n = (withEoi (State.delivered (xs ++ ys))).take n := by
  intro x00 head xs ys file appended
  have hhead : head = if x00 then p00Header name 0 else [] := rfl
  have hfile : file.contents = head ++ xs :=
    ((State.sent_fatOpenWrite mode name type rfl rfl).listens ts).fatFileClose
  have happended : appended.contents = head ++ xs ++ ys := by
    rw [← hfile]
    exact ((State.sent_fatOpenAppend x00 rfl).listens us).fatFileClose
  refine ⟨hhead, hfile, happended, fun n => ?_⟩
  have hdrop : appended.contents.drop (if x00 then P00_HEADER_SIZE else 0) = xs ++ ys := by
    rw [happended, List.append_assoc, hhead]
    cases x00 with
    | true =>
      rw [if_pos rfl, if_pos rfl, ← p00Header_length name 0]
      exact List.drop_left
    | false => rfl
  have hsize : x00 = true → P00_HEADER_SIZE ≤ appended.size := by
    intro hx00
    rw [← File.contents_length, happended, hhead, if_pos hx00, List.append_assoc, List.length_append,
      p00Header_length]
    exact Nat.le_add_right _ _
  obtain ⟨hdelivers, halloc⟩ := State.delivers_fatOpenRead data'' x00 rfl hsize
  rw [hdrop] at hdelivers
  have hfind : State.channel.find ((State.fresh data'' appended fun _ => .ok).fatOpenRead x00) =
      some ((State.fresh data'' appended fun _ => .ok).fatOpenRead x00) := if_pos halloc
  rw [readFile, Channel.talkLoop, hfind]
  exact hdelivers.talkBytes_take State.channel_lawful n

end NoDiskEmu.Fat
