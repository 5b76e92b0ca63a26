import NoDiskEmu.Fat.Directory

/-! The disk changer of `diskchange.c`: `mount_line` reads the swap list from its start up to the line that it mounts,
and the keys move from line to line. -/

namespace NoDiskEmu.SwapList

open Fat

/-- CR and LF. -/
def isEnd (x : UInt8) : Bool := x = 13 || x = 10

/-- `petscii_marker`. -/
def petsciiMarker : List UInt8 := [35, 80, 69, 84, 83, 67, 73, 73]

/-- The variables of `mount_line`. `mem` is the memory from `command_buffer + 1` on. -/
structure Scan where
  linenum : ℕ
  i : ℕ
  curpos : ℕ
  ascii : Bool
  mem : List UInt8

/-- The memory after a read of `bytes` for which there was place for `window` bytes: a short text is terminated. -/
def load (window : ℕ) (bytes mem : List UInt8) : List UInt8 :=
  let text := if bytes.length < window then bytes ++ [0] else bytes
  text ++ mem.drop text.length

/-- How a round of the loop ends. `astray` stands for a search that leaves the memory. -/
inductive Round
  | again (s : Scan)
  | found (s : Scan) (line : List UInt8) (gotColon : Bool)
  | failed
  | astray

/-- A round of the loop of `mount_line`. `window` is `CONFIG_COMMAND_BUFFER_SIZE - 1`, and `read` is what `f_lseek` and
`f_read` get. -/
def round (window : ℕ) (read : ℕ → Option (List UInt8)) (s : Scan) : Round :=
  match read s.curpos with
  | none => .failed
  | some bytes =>
    let mem := load window bytes s.mem
    -- the end of the list: all is read again, for the last line or the first one
    if bytes = [] then
      .again ⟨if s.linenum = 255 then (s.i + 255) % 256 else 0, 0, 0, s.ascii, mem⟩
    else
      let strend := mem.findIdx isEnd
      let str := strend + (mem.drop strend).findIdx fun x => !isEnd x
      if str = mem.length then .astray
      else
        let marked : Bool := s.curpos = 0 && mem.take 8 = petsciiMarker
        let i := if marked then s.i else (s.i + 1) % 256
        let s := ⟨s.linenum, i, (s.curpos + str) % 65536, s.ascii && !marked, mem⟩
        if i ≤ s.linenum then .again s
        else .found s ((mem.take strend).takeWhile (· ≠ 0)) ((mem.take strend).contains 58)

/-- What `mount_line` does: the argument of `do_chdir`, or an error. -/
inductive Mount
  | chdir (name : List UInt8)
  | failed
  | astray

/-- The argument of `do_chdir` for a line. -/
def chdirName (ascii gotColon : Bool) (line : List UInt8) : List UInt8 :=
  let name := if !gotColon && line.head? != some 47 then 58 :: line else line
  if ascii then name.map asc2pet else name

/-- The loop of `mount_line`, with the number of the line that it leaves; it may need more rounds than `fuel`. -/
def mountLoop (window : ℕ) (read : ℕ → Option (List UInt8)) : ℕ → Scan → Option (Mount × ℕ)
  | 0, _ => none
  | fuel + 1, s =>
    match round window read s with
    | .again s => mountLoop window read fuel s
    | .found s line gotColon => some (.chdir (chdirName s.ascii gotColon line), s.linenum)
    | .failed => some (.failed, s.linenum)
    | .astray => some (.astray, s.linenum)

/-- `mount_line`, with what the command buffer holds from before. -/
def mountLine (window : ℕ) (read : ℕ → Option (List UInt8)) (fuel linenum : ℕ) (mem : List UInt8) : Option (Mount × ℕ) :=
  mountLoop window read fuel ⟨linenum, 0, 0, true, mem⟩

inductive Key
  | next
  | prev
  | home

/-- The change of `linenum`, which is a byte. -/
def Key.change (linenum : ℕ) : Key → ℕ
  | .next => (linenum + 1) % 256
  | .prev => (linenum + 255) % 256
  | .home => 0

/-- `change_disk` with an active swap list. -/
def changeDisk (window : ℕ) (read : ℕ → Option (List UInt8)) (fuel linenum : ℕ) (key : Key) (mem : List UInt8) :
    Option (Mount × ℕ) :=
  mountLine window read fuel (key.change linenum) mem

/-- What a series of keys mounts, each with the command buffer at its time. -/
def changeDisks (window : ℕ) (read : ℕ → Option (List UInt8)) (fuel : ℕ) :
    ℕ → List (Key × List UInt8) → Option (List Mount × ℕ)
  | linenum, [] => some ([], linenum)
  | linenum, (key, mem) :: keys =>
    (changeDisk window read fuel linenum key mem).bind fun m =>
      (changeDisks window read fuel m.2 keys).map fun r => (m.1 :: r.1, r.2)

/-! ### Lists of lines -/

/-- A line of a swap list, with the CRs and LFs that end it. -/
structure Line (window : ℕ) where
  name : List UInt8
  ends : List UInt8
  name_ne : name ≠ []
  ends_ne : ends ≠ []
  name_ok : ∀ x ∈ name, isEnd x = false ∧ x ≠ 0
  ends_ok : ∀ x ∈ ends, isEnd x = true
  short : name.length + ends.length < window

namespace Line

variable {window : ℕ}

def bytes (l : Line window) : List UInt8 := l.name ++ l.ends

/-- The line tells that the list is in PETSCII. -/
def marks (l : Line window) : Bool := l.name.take 8 = petsciiMarker

def data (ls : List (Line window)) : List UInt8 := ls.flatMap bytes

/-- The lines that name images. -/
def images : List (Line window) → List (Line window)
  | [] => []
  | l :: ls => if l.marks then ls else l :: ls

/-- The lists are ASCII unless the first line says otherwise. -/
def isAscii : List (Line window) → Bool
  | [] => true
  | l :: _ => !l.marks

/-- What is mounted for a line. -/
def mount (ascii : Bool) (l : Line window) : Mount := .chdir (chdirName ascii (l.name.contains 58) l.name)

end Line

/-- What `f_lseek` and `f_read` get of a list that is open for reading only: behind the end there is nothing. -/
def readData (window : ℕ) (data : List UInt8) (p : ℕ) : Option (List UInt8) := some ((data.drop p).take window)

theorem findIdx_block {p : UInt8 → Bool} {xs ys : List UInt8} {y : UInt8} (hxs : ∀ x ∈ xs, p x = false) (hy : p y = true) :
    (xs ++ y :: ys).findIdx p = xs.length := by
  induction xs with
  | nil => simp [List.findIdx_cons, hy]
  | cons x xs ih =>
    rw [List.cons_append, List.findIdx_cons, hxs x List.mem_cons_self, List.length_cons,
      ih fun x hx => hxs x (List.mem_cons_of_mem _ hx)]
    rfl

namespace Line

variable {window : ℕ} {l : Line window} {ls : List (Line window)}

theorem bytes_length (l : Line window) : l.bytes.length = l.name.length + l.ends.length := List.length_append

theorem bytes_length_pos (l : Line window) : 0 < l.bytes.length := by
  rw [bytes_length]
  have := List.length_pos_iff.mpr l.name_ne
  omega

/-- The first byte of a line belongs to its name. -/
theorem head_data (ls : List (Line window)) : ∀ x ∈ (data ls).head?, isEnd x = false := by
  intro x hx
  cases ls with
  | nil => cases hx
  | cons l ls =>
    obtain ⟨y, ys, hname⟩ := List.exists_cons_of_ne_nil l.name_ne
    rw [data, List.flatMap_cons, bytes, hname] at hx
    cases hx
    exact (l.name_ok _ (by rw [hname]; exact List.mem_cons_self)).1

/-- A line in the command buffer is followed by a byte that ends the search for the next line. -/
theorem load_line {after : List UInt8} (mem : List UInt8) (hafter : ∀ x ∈ after.head?, isEnd x = false) :
    ∃ y rest, load window ((l.bytes ++ after).take window) mem = l.bytes ++ y :: rest ∧ isEnd y = false := by
  have hshort : l.bytes.length < window := l.bytes_length ▸ l.short
  rw [List.take_append, List.take_of_length_le hshort.le, load]
  cases after with
  | nil =>
    rw [List.take_nil, List.append_nil, if_pos hshort, List.append_assoc]
    exact ⟨0, _, rfl, rfl⟩
  | cons x after =>
    obtain ⟨k, hk⟩ := Nat.exists_eq_succ_of_ne_zero (Nat.sub_ne_zero_of_lt hshort)
    rw [hk, List.take_succ_cons]
    split
    · rw [List.append_assoc, List.append_assoc]
      exact ⟨x, _, rfl, hafter x rfl⟩
    · rw [List.append_assoc]
      exact ⟨x, _, rfl, hafter x rfl⟩

/-- The marker is looked for in the name. -/
theorem take_marker {rest : List UInt8} : (l.bytes ++ rest).take 8 = petsciiMarker ↔ l.name.take 8 = petsciiMarker := by
  obtain ⟨e, ends, hends⟩ := List.exists_cons_of_ne_nil l.ends_ne
  by_cases h : 8 ≤ l.name.length
  · rw [bytes, List.append_assoc, List.take_append_of_le_length h]
  · constructor
    · intro heq
      -- a shorter name is followed by a CR or LF
      have hend : e ∈ petsciiMarker := by
        rw [← heq, bytes, hends, List.append_assoc, List.take_append]
        refine List.mem_append_right _ ?_
        obtain ⟨k, hk⟩ := Nat.exists_eq_succ_of_ne_zero (Nat.sub_ne_zero_of_lt (Nat.not_le.mp h))
        rw [hk, List.cons_append, List.take_succ_cons]
        exact List.mem_cons_self
      have hbad := l.ends_ok e (hends ▸ List.mem_cons_self)
      have hnone : ∀ x ∈ petsciiMarker, isEnd x = false := by simp [petsciiMarker, isEnd]
      exact absurd ((hnone e hend).symm.trans hbad) Bool.false_ne_true
    · intro heq
      have hlen := congrArg List.length heq
      rw [List.length_take] at hlen
      have : petsciiMarker.length = 8 := rfl
      omega

/-- A round at the start of a line. -/
theorem round_line {bytes after : List UInt8} {s : Scan} (hdata : bytes.drop s.curpos = l.bytes ++ after)
    (hafter : ∀ x ∈ after.head?, isEnd x = false) (hpos : s.curpos + l.bytes.length < 65536) :
    ∃ mem, round window (readData window bytes) s =
      let marked : Bool := s.curpos = 0 && l.marks
      let i := if marked then s.i else (s.i + 1) % 256
      let s' : Scan := ⟨s.linenum, i, s.curpos + l.bytes.length, s.ascii && !marked, mem⟩
      if i ≤ s.linenum then .again s' else .found s' l.name (l.name.contains 58) := by
  obtain ⟨y, rest, hload, hy⟩ := l.load_line s.mem hafter
  obtain ⟨e, ends, hends⟩ := List.exists_cons_of_ne_nil l.ends_ne
  refine ⟨l.bytes ++ y :: rest, ?_⟩
  have hne : ((l.bytes ++ after).take window) ≠ [] := by
    have hshort := l.short
    have := l.bytes_length_pos
    intro hnil
    have hlen := congrArg List.length hnil
    rw [List.length_take, List.length_append, List.length_nil] at hlen
    omega
  have hstrend : (l.bytes ++ y :: rest).findIdx isEnd = l.name.length := by
    rw [Line.bytes, hends, List.append_assoc]
    exact findIdx_block (fun x hx => (l.name_ok x hx).1) (l.ends_ok e (hends ▸ List.mem_cons_self))
  have hdrop : (l.bytes ++ y :: rest).drop l.name.length = l.ends ++ y :: rest := by
    rw [Line.bytes, List.append_assoc, List.drop_left]
  have hstr : (l.ends ++ y :: rest).findIdx (fun x => !isEnd x) = l.ends.length :=
    findIdx_block (fun x hx => by rw [l.ends_ok x hx]; rfl) (by rw [hy]; rfl)
  have htake : (l.bytes ++ y :: rest).take l.name.length = l.name := by
    rw [Line.bytes, List.append_assoc, List.take_left]
  have hname : l.name.takeWhile (· ≠ 0) = l.name :=
    List.takeWhile_eq_self_iff.mpr fun x hx => decide_eq_true (l.name_ok x hx).2
  have hinside : l.name.length + l.ends.length ≠ (l.bytes ++ y :: rest).length := by
    rw [List.length_append, bytes_length, List.length_cons]
    omega
  have hmod : (s.curpos + (l.name.length + l.ends.length)) % 65536 = s.curpos + (l.name.length + l.ends.length) := by
    rw [bytes_length] at hpos
    exact Nat.mod_eq_of_lt hpos
  rw [round, readData, hdata]
  dsimp only
  rw [if_neg hne, hload, hstrend, hdrop, hstr, htake, hname, if_neg hinside, bytes_length, hmod,
    decide_eq_decide.mpr l.take_marker]
  rfl

end Line

section List

variable {window : ℕ} {ls : List (Line window)} {bytes : List UInt8} {s : Scan}

theorem data_cons (l : Line window) (ls : List (Line window)) : Line.data (l :: ls) = l.bytes ++ Line.data ls :=
  List.flatMap_cons

/-- The loop over lines that all count: it stops at the line it looks for, or goes on to the end. -/
theorem mountLoop_lines (hdata : bytes.drop s.curpos = Line.data ls) (hpos : s.curpos + (Line.data ls).length < 65536)
    (hmark : s.curpos = 0 → Line.isAscii ls = true) (hi : s.i ≤ s.linenum) (hlen : s.i + ls.length ≤ 255) (fuel : ℕ) :
    (∀ k l, s.linenum = s.i + k → ls[k]? = some l →
      mountLoop window (readData window bytes) (fuel + ls.length) s = some (l.mount s.ascii, s.linenum)) ∧
      (s.i + ls.length ≤ s.linenum → ∃ mem, mountLoop window (readData window bytes) (fuel + ls.length) s =
        mountLoop window (readData window bytes) fuel
          ⟨s.linenum, s.i + ls.length, s.curpos + (Line.data ls).length, s.ascii, mem⟩) := by
  induction ls generalizing s with
  | nil => exact ⟨fun _ _ _ h => (nomatch h), fun _ => ⟨s.mem, rfl⟩⟩
  | cons l ls ih =>
    rw [data_cons] at hdata hpos
    rw [List.length_append] at hpos
    rw [List.length_cons] at hlen
    have hpos' : 0 < l.bytes.length := l.bytes_length_pos
    obtain ⟨mem, hround⟩ := l.round_line hdata (Line.head_data ls) (by omega)
    have hmarked : (decide (s.curpos = 0) && l.marks) = false := by
      by_cases hzero : s.curpos = 0
      · have := hmark hzero
        rw [Line.isAscii, Bool.not_eq_true'] at this
        rw [this, Bool.and_false]
      · rw [decide_eq_false hzero, Bool.false_and]
    have hmod : (s.i + 1) % 256 = s.i + 1 := Nat.mod_eq_of_lt (by omega)
    simp only [hmarked, Bool.false_eq_true, if_false, Bool.not_false, Bool.and_true, hmod] at hround
    have hdrop : bytes.drop (s.curpos + l.bytes.length) = Line.data ls := by
      rw [← List.drop_drop, hdata, List.drop_left]
    have hrest := fun hle => ih (s := ⟨s.linenum, s.i + 1, s.curpos + l.bytes.length, s.ascii, mem⟩) hdrop
      (by show s.curpos + l.bytes.length + _ < _; omega) (fun h => absurd h (by show s.curpos + l.bytes.length ≠ 0; omega))
      hle (by show s.i + 1 + ls.length ≤ 255; omega)
    rw [List.length_cons, ← Nat.add_assoc, mountLoop, hround]
    refine ⟨fun k l' hk hl' => ?_, fun hend => ?_⟩
    · cases k with
      | zero =>
        rw [if_neg (by omega)]
        cases hl'
        rfl
      | succ k =>
        rw [if_pos (by omega)]
        exact (hrest (by show s.i + 1 ≤ s.linenum; omega)).1 k l' (by show s.linenum = s.i + 1 + k; omega) hl'
    · rw [if_pos (by omega)]
      obtain ⟨mem', hgo⟩ := (hrest (by show s.i + 1 ≤ s.linenum; omega)).2
        (by show s.i + 1 + ls.length ≤ s.linenum; omega)
      refine ⟨mem', hgo.trans ?_⟩
      rw [data_cons, List.length_append, ← Nat.add_assoc s.curpos, Nat.add_right_comm s.i]
      rfl

theorem mountLoop_end {fuel : ℕ} (hdata : bytes.drop s.curpos = []) : ∃ mem,
    mountLoop window (readData window bytes) (fuel + 1) s = mountLoop window (readData window bytes) fuel
      ⟨if s.linenum = 255 then (s.i + 255) % 256 else 0, 0, 0, s.ascii, mem⟩ := by
  refine ⟨load window [] s.mem, ?_⟩
  rw [mountLoop, round, readData, hdata, List.take_nil]
  rfl

/-- The marker line is skipped. -/
theorem mountLoop_marker (hpos : (Line.data ls).length < 65536) (linenum : ℕ) (ascii : Bool) (mem : List UInt8) :
    ∃ off mem', (Line.data ls).drop off = Line.data (Line.images ls) ∧
      off + (Line.data (Line.images ls)).length = (Line.data ls).length ∧
      (off = 0 → Line.isAscii (Line.images ls) = true) ∧
      ∀ fuel, mountLoop window (readData window (Line.data ls)) (fuel + ls.length) ⟨linenum, 0, 0, ascii, mem⟩ =
        mountLoop window (readData window (Line.data ls)) (fuel + (Line.images ls).length)
          ⟨linenum, 0, off, ascii && Line.isAscii ls, mem'⟩ := by
  cases ls with
  | nil =>
    refine ⟨0, mem, rfl, rfl, fun _ => rfl, fun fuel => ?_⟩
    rw [Line.isAscii, Bool.and_true]
    rfl
  | cons l ls =>
    cases hmarks : l.marks with
    | false =>
      have himages : Line.images (l :: ls) = l :: ls := by rw [Line.images, hmarks]; rfl
      have hascii : Line.isAscii (l :: ls) = true := by rw [Line.isAscii, hmarks]; rfl
      rw [himages, hascii, Bool.and_true]
      exact ⟨0, mem, rfl, Nat.zero_add _, fun _ => rfl, fun _ => rfl⟩
    | true =>
      have himages : Line.images (l :: ls) = ls := by rw [Line.images, hmarks]; rfl
      have hascii : Line.isAscii (l :: ls) = false := by rw [Line.isAscii, hmarks]; rfl
      have hne := l.bytes_length_pos
      rw [data_cons, List.length_append] at hpos
      rw [himages, hascii, Bool.and_false, data_cons]
      obtain ⟨mem', hround⟩ := l.round_line (s := ⟨linenum, 0, 0, ascii, mem⟩)
        (List.drop_zero) (Line.head_data ls) (by show 0 + _ < _; omega)
      refine ⟨l.bytes.length, mem', List.drop_left, List.length_append.symm, fun h => by omega, fun fuel => ?_⟩
      rw [List.length_cons, ← Nat.add_assoc, mountLoop, hround]
      simp [hmarks]

/-- A pass over the list from its start. -/
theorem mountLoop_pass (hpos : (Line.data ls).length < 65536) (hlen : (Line.images ls).length ≤ 255) (fuel linenum : ℕ)
    (ascii : Bool) (mem : List UInt8) :
    (∀ l, (Line.images ls)[linenum]? = some l →
      mountLoop window (readData window (Line.data ls)) (fuel + ls.length) ⟨linenum, 0, 0, ascii, mem⟩ =
        some (l.mount (ascii && Line.isAscii ls), linenum)) ∧
      ((Line.images ls).length ≤ linenum → ∃ mem',
        mountLoop window (readData window (Line.data ls)) (fuel + 1 + ls.length) ⟨linenum, 0, 0, ascii, mem⟩ =
          mountLoop window (readData window (Line.data ls)) fuel
            ⟨if linenum = 255 then ((Line.images ls).length + 255) % 256 else 0, 0, 0, ascii && Line.isAscii ls, mem'⟩) := by
  obtain ⟨off, mem', hdrop, hoff, hmark, hskip⟩ := mountLoop_marker hpos linenum ascii mem
  have hloop := mountLoop_lines (s := ⟨linenum, 0, off, ascii && Line.isAscii ls, mem'⟩) hdrop (hoff.trans_lt hpos) hmark
    (Nat.zero_le _) ((Nat.zero_add _).trans_le hlen)
  refine ⟨fun l hl => ?_, fun hend => ?_⟩
  · rw [hskip]
    exact (hloop fuel).1 linenum l (Nat.zero_add _).symm hl
  · obtain ⟨mem₁, hgo⟩ := (hloop (fuel + 1)).2 ((Nat.zero_add _).trans_le hend)
    obtain ⟨mem₂, hagain⟩ := @mountLoop_end window (Line.data ls) ⟨linenum, 0 + (Line.images ls).length,
      off + (Line.data (Line.images ls)).length, ascii && Line.isAscii ls, mem₁⟩ fuel (by rw [hoff]; exact List.drop_length)
    refine ⟨mem₂, (hskip (fuel + 1)).trans (hgo.trans (hagain.trans ?_))⟩
    rw [Nat.zero_add]

/-- The line that `mount_line` comes to for a number, in a list of `n` images. -/
def settle (n linenum : ℕ) : ℕ := if linenum < n then linenum else if linenum = 255 then n - 1 else 0

theorem settle_lt {n : ℕ} (linenum : ℕ) (hn : 0 < n) : settle n linenum < n := by
  rw [settle]
  split_ifs <;> omega

/-- `mount_line` for a list of up to 255 images. -/
theorem mountLine_eq (hpos : (Line.data ls).length < 65536) (hn : 0 < (Line.images ls).length)
    (hlen : (Line.images ls).length ≤ 255) (fuel linenum : ℕ) (mem : List UInt8) {l : Line window}
    (hl : (Line.images ls)[settle (Line.images ls).length linenum]? = some l) :
    mountLine window (readData window (Line.data ls)) (fuel + ls.length + 1 + ls.length) linenum mem =
      some (l.mount (Line.isAscii ls), settle (Line.images ls).length linenum) := by
  rw [mountLine]
  obtain ⟨hfound, hend⟩ := mountLoop_pass hpos hlen (fuel + ls.length) linenum true mem
  by_cases hlt : linenum < (Line.images ls).length
  · rw [settle, if_pos hlt] at hl ⊢
    have hone := (mountLoop_pass hpos hlen (fuel + ls.length + 1) linenum true mem).1 l hl
    rwa [Bool.true_and] at hone
  · obtain ⟨mem', hagain⟩ := hend (Nat.not_lt.mp hlt)
    have hsettle : (if linenum = 255 then ((Line.images ls).length + 255) % 256 else 0) =
        settle (Line.images ls).length linenum := by
      rw [settle, if_neg hlt]
      split_ifs
      · omega
      · rfl
    rw [hagain, hsettle]
    have hone := (mountLoop_pass hpos hlen fuel (settle (Line.images ls).length linenum) (true && Line.isAscii ls) mem').1 l hl
    rwa [Bool.true_and, Bool.and_self] at hone

/-- More rounds do not change what is found. -/
theorem mountLoop_mono {read : ℕ → Option (List UInt8)} {fuel : ℕ} {r : Mount × ℕ}
    (h : mountLoop window read fuel s = some r) (k : ℕ) : mountLoop window read (fuel + k) s = some r := by
  induction fuel generalizing s with
  | zero => cases h
  | succ fuel ih =>
    rw [mountLoop] at h
    rw [Nat.add_right_comm, mountLoop]
    cases hround : round window read s with
    | again s' =>
      rw [hround] at h
      exact ih h
    | found s' line gotColon =>
      rw [hround] at h
      exact h
    | failed =>
      rw [hround] at h
      exact h
    | astray =>
      rw [hround] at h
      exact h

/-- The counter of the loop is a byte. -/
theorem round_counter (window : ℕ) (read : ℕ → Option (List UInt8)) (hi : s.i ≤ 255) :
    match round window read s with
    | .again s' => s'.i ≤ 255
    | .found s' _ _ => s'.linenum < s'.i ∧ s'.i ≤ 255
    | _ => True := by
  rw [round]
  cases read s.curpos with
  | none => trivial
  | some bytes =>
    dsimp only
    by_cases hend : bytes = []
    · rw [if_pos hend]
      exact Nat.zero_le _
    rw [if_neg hend]
    split_ifs with hastray hle
    · trivial
    all_goals dsimp only; omega

/-- Only the first 255 lines can be mounted. -/
theorem mountLoop_le {read : ℕ → Option (List UInt8)} {fuel : ℕ} {name : List UInt8} {linenum : ℕ} (hi : s.i ≤ 255)
    (h : mountLoop window read fuel s = some (.chdir name, linenum)) : linenum ≤ 254 := by
  induction fuel generalizing s with
  | zero => cases h
  | succ fuel ih =>
    have hcounter := round_counter window read hi
    rw [mountLoop] at h
    cases hround : round window read s with
    | again s' =>
      rw [hround] at h hcounter
      exact ih hcounter h
    | found s' line gotColon =>
      rw [hround] at h hcounter
      cases h
      have := hcounter.1
      have := hcounter.2
      omega
    | failed =>
      rw [hround] at h
      cases h
    | astray =>
      rw [hround] at h
      cases h

end List

/-! ### The keys -/

/-- The image that a key leads to in a ring of `n` images. -/
def Key.move (n p : ℕ) : Key → ℕ
  | .next => (p + 1) % n
  | .prev => (p + n - 1) % n
  | .home => 0

/-- The images that a series of keys leads to. -/
def ring (n : ℕ) : ℕ → List Key → List ℕ
  | _, [] => []
  | p, key :: keys => key.move n p :: ring n (key.move n p) keys

section Ring

variable {window : ℕ} {ls : List (Line window)}

/-- A series of keys mounts the images of a ring. -/
def Follows (ls : List (Line window)) (p : ℕ) (keys : List (Key × List UInt8)) : Prop :=
  ∃ fuel ms, changeDisks window (readData window (Line.data ls)) fuel p keys =
      some (ms, (ring (Line.images ls).length p (keys.map Prod.fst)).getLastD p) ∧
    ms.map some = (ring (Line.images ls).length p (keys.map Prod.fst)).map fun p =>
      ((Line.images ls)[p]?).map (Line.mount (Line.isAscii ls))

theorem Key.move_lt {n p : ℕ} (hn : 0 < n) (key : Key) : key.move n p < n := by
  cases key with
  | next => exact Nat.mod_lt _ hn
  | prev => exact Nat.mod_lt _ hn
  | home => exact hn

theorem settle_key {n p : ℕ} (hn : n ≤ 254) (hp : p < n) (key : Key) :
    settle n (key.change p) = key.move n p := by
  cases key with
  | next =>
    rw [Key.change, Key.move, settle, Nat.mod_eq_of_lt (show p + 1 < 256 by omega)]
    by_cases h : p + 1 < n
    · rw [if_pos h, Nat.mod_eq_of_lt h]
    · rw [if_neg h, if_neg (by omega), show p + 1 = n by omega, Nat.mod_self]
  | prev =>
    rw [Key.change, Key.move, settle]
    cases p with
    | zero =>
      rw [if_neg (by omega), if_pos rfl, Nat.zero_add, Nat.mod_eq_of_lt (by omega)]
    | succ p =>
      have h1 : (p + 1 + 255) % 256 = p := by omega
      have h2 : (p + 1 + n - 1) % n = p := by
        rw [Nat.add_right_comm, Nat.add_sub_cancel, Nat.add_mod_right, Nat.mod_eq_of_lt (by omega)]
      rw [h1, h2, if_pos (by omega)]
  | home =>
    rw [Key.change, Key.move, settle]
    exact if_pos (by omega)

/-- The keys move around the list. -/
theorem follows (hpos : (Line.data ls).length < 65536) (hn : (Line.images ls).length ≤ 254)
    (keys : List (Key × List UInt8)) {p : ℕ} (hp : p < (Line.images ls).length) : Follows ls p keys := by
  refine ⟨0 + ls.length + 1 + ls.length, ?_⟩
  induction keys generalizing p with
  | nil => exact ⟨[], rfl, rfl⟩
  | cons km keys ih =>
    obtain ⟨key, mem⟩ := km
    have hlt : key.move (Line.images ls).length p < (Line.images ls).length := Key.move_lt (by omega) key
    obtain ⟨ms, hms, hmap⟩ := ih hlt
    obtain ⟨l, hget⟩ : ∃ l, (Line.images ls)[key.move (Line.images ls).length p]? = some l :=
      ⟨_, List.getElem?_eq_getElem hlt⟩
    have hone : changeDisk window (readData window (Line.data ls)) (0 + ls.length + 1 + ls.length) p key mem =
        some (l.mount (Line.isAscii ls), key.move (Line.images ls).length p) := by
      have hsettle := settle_key hn hp key
      have hline := mountLine_eq hpos (by omega) (by omega) 0 (key.change p) mem (by rw [hsettle]; exact hget)
      rwa [hsettle] at hline
    refine ⟨l.mount (Line.isAscii ls) :: ms, ?_, ?_⟩
    · rw [changeDisks, hone, Option.bind_some, hms, Option.map_some, List.map_cons, ring, List.getLastD_cons]
    · rw [List.map_cons, hmap, List.map_cons, ring, List.map_cons, hget]
      rfl

theorem changeDisks_cons {read : ℕ → Option (List UInt8)} {fuel p q : ℕ} {key : Key} {mem : List UInt8}
    {keys : List (Key × List UInt8)} {ms : List Mount}
    (h : changeDisks window read fuel p ((key, mem) :: keys) = some (ms, q)) :
    ∃ m p' ms', changeDisk window read fuel p key mem = some (m, p') ∧
      changeDisks window read fuel p' keys = some (ms', q) ∧ ms = m :: ms' := by
  rw [changeDisks, Option.bind_eq_some_iff] at h
  obtain ⟨⟨m, p'⟩, hone, hrest⟩ := h
  rw [Option.map_eq_some_iff] at hrest
  obtain ⟨⟨ms', q'⟩, hkeys, heq⟩ := hrest
  cases heq
  exact ⟨m, p', ms', hone, hkeys, rfl⟩

/-- Where a key leads to in a list of up to 255 images, with as many rounds as it takes. -/
theorem changeDisk_settle (hpos : (Line.data ls).length < 65536) (hn : 0 < (Line.images ls).length)
    (hlen : (Line.images ls).length ≤ 255) {fuel p p' : ℕ} {key : Key} {mem : List UInt8} {m : Mount}
    (h : changeDisk window (readData window (Line.data ls)) fuel p key mem = some (m, p')) :
    p' = settle (Line.images ls).length (key.change p) := by
  have hget := List.getElem?_eq_getElem (settle_lt (key.change p) hn)
  have hline := mountLoop_mono (mountLine_eq hpos hn hlen 0 (key.change p) mem hget) fuel
  have hmore := mountLoop_mono h (0 + ls.length + 1 + ls.length)
  rw [Nat.add_comm] at hmore
  have heq := hmore.symm.trans hline
  cases heq
  rfl

/-- A list without images is read again and again. -/
theorem mountLine_empty (hpos : (Line.data ls).length < 65536) (hnil : Line.images ls = []) (fuel linenum : ℕ)
    (mem : List UInt8) : mountLine window (readData window (Line.data ls)) fuel linenum mem = none := by
  suffices hnone : ∀ fuel linenum ascii mem,
      mountLoop window (readData window (Line.data ls)) fuel ⟨linenum, 0, 0, ascii, mem⟩ = none from hnone _ _ _ _
  have hlen : (Line.images ls).length = 0 := by rw [hnil]; rfl
  have hpass : ∀ fuel linenum ascii mem, ∃ linenum' ascii' mem',
      mountLoop window (readData window (Line.data ls)) (fuel + 1 + ls.length) ⟨linenum, 0, 0, ascii, mem⟩ =
        mountLoop window (readData window (Line.data ls)) fuel ⟨linenum', 0, 0, ascii', mem'⟩ := by
    intro fuel linenum ascii mem
    obtain ⟨mem', hgo⟩ := (mountLoop_pass hpos (by omega) fuel linenum ascii mem).2 (by omega)
    exact ⟨_, _, mem', hgo⟩
  intro fuel
  induction fuel using Nat.strongRecOn with
  | ind fuel ih =>
    intro linenum ascii mem
    by_cases hlt : fuel < 1 + ls.length
    · -- not even a whole pass
      obtain ⟨_, _, _, hgo⟩ := hpass 0 linenum ascii mem
      rw [Option.eq_none_iff_forall_ne_some]
      intro r hr
      have hmore := mountLoop_mono hr (0 + 1 + ls.length - fuel)
      rw [Nat.add_sub_cancel' (by omega), hgo] at hmore
      cases hmore
    · obtain ⟨_, _, _, hgo⟩ := hpass (fuel - (1 + ls.length)) linenum ascii mem
      rw [Nat.add_assoc, Nat.sub_add_cancel (Nat.not_lt.mp hlt)] at hgo
      exact hgo.trans (ih _ (by omega) _ _ _)

/-- A series of keys mounts the images of a ring, for every series, if and only if there are images, and no more than
254 of them. -/
theorem follows_iff (hpos : (Line.data ls).length < 65536) :
    (∀ keys, Follows ls 0 keys) ↔ 0 < (Line.images ls).length ∧ (Line.images ls).length ≤ 254 := by
  constructor
  · intro h
    have hn : 0 < (Line.images ls).length := by
      rw [List.length_pos_iff]
      intro hnil
      obtain ⟨fuel, ms, hkeys, -⟩ := h [(.home, [])]
      obtain ⟨m, p, ms', hhome, -, -⟩ := changeDisks_cons hkeys
      cases hhome.symm.trans (mountLine_empty hpos hnil fuel _ _)
    refine ⟨hn, ?_⟩
    by_contra hlarge
    by_cases hmax : (Line.images ls).length = 255
    · -- the number 255 stands for the last image, also when the key was NEXT
      obtain ⟨fuel, ms, hkeys, -⟩ := h [(.prev, []), (.next, [])]
      obtain ⟨m₁, p₁, ms₁, hprev, hkeys, -⟩ := changeDisks_cons hkeys
      obtain ⟨m₂, p₂, ms₂, hnext, hkeys, -⟩ := changeDisks_cons hkeys
      have h₁ := changeDisk_settle hpos hn hmax.le hprev
      have h₂ := changeDisk_settle hpos hn hmax.le hnext
      rw [hmax] at h₁ h₂ hkeys
      subst h₁ h₂
      cases hkeys
    · obtain ⟨fuel, ms, hkeys, hms⟩ := h [(.prev, [])]
      obtain ⟨m, p, ms', hprev, hrest, rfl⟩ := changeDisks_cons hkeys
      have hlast : (Line.images ls).length - 1 = p := by
        have hmod : (0 + (Line.images ls).length - 1) % (Line.images ls).length = (Line.images ls).length - 1 := by
          rw [Nat.zero_add]
          exact Nat.mod_eq_of_lt (by omega)
        cases hrest
        exact hmod.symm
      obtain ⟨l, -, hl⟩ : ∃ l : Line window, _ ∧ l.mount (Line.isAscii ls) = m :=
        Option.map_eq_some_iff.mp (List.cons.inj hms).1.symm
      rw [← hl] at hprev
      have hfound : mountLoop window (readData window (Line.data ls)) fuel ⟨Key.prev.change 0, 0, 0, true, []⟩ =
        some (.chdir _, p) := hprev
      have := mountLoop_le (Nat.zero_le _) hfound
      omega
  · rintro ⟨hn, hle⟩ keys
    exact follows hpos hle keys hn

/-- A list of two images with its marker. -/
def twoImages : List (Line 119) :=
  [⟨[35, 80, 69, 84, 83, 67, 73, 73], [13, 10], by decide, by decide, by simp [isEnd], by simp [isEnd], by decide⟩,
    ⟨[65], [13, 10], by decide, by decide, by simp [isEnd], by simp [isEnd], by decide⟩,
    ⟨[66], [10, 10], by decide, by decide, by simp [isEnd], by simp [isEnd], by decide⟩]

theorem twoImages_follows : Follows twoImages 0 [(.next, []), (.next, []), (.prev, [])] :=
  (follows_iff (by decide)).mpr (by decide) _

end Ring

end NoDiskEmu.SwapList
