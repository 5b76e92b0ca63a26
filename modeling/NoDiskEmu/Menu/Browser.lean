import NoDiskEmu.Menu.Chdir
import Mathlib.Data.Int.ModEq
import Mathlib.Algebra.Order.Ring.Int

/-! `menu_browse_files` as it answers to the directory and the keys, with the indices that it uses.
The boards with a display have four lines, 16 bit integers and entries of 19 bytes. -/

namespace NoDiskEmu

open Library Library.Run

def LCD_LINES : ℕ := 4
def CONFIG_DIR_BUFFERS : ℕ := 2
def ENTRIES_PER_BLOCK : ℕ := 256 / 19
def MAX_LASTPOS : ℕ := 16
def DIRNAV_OFFSET : ℕ := 2

/-- The number of elements of `ep`. -/
def EP_SIZE : ℕ := CONFIG_DIR_BUFFERS * ENTRIES_PER_BLOCK

/-- An index that is looked up: into `ep`, into `stack_mp` and `stack_my`, or as the argument of
`lcd_print_dir_entry`. -/
inductive Lookup
  | ep (i : ℕ)
  | stack (i : ℕ)
  | lcdPrintDirEntry (i entries : ℕ)

def Lookup.Ok : Lookup → Prop
  | ep i => i < EP_SIZE
  | stack i => i < MAX_LASTPOS
  | lcdPrintDirEntry i entries => i < entries

/-- What the menu finds when it reads the directory. `enterable` tells of the elements of `ep` whether
their flags have `E_DIR` or `E_IMAGE`. -/
structure Directory where
  opendirFails : Bool
  entries : ℕ
  enterable : ℕ → Bool

inductive Key
  | prev
  | next
  | sel
deriving DecidableEq

/-- What the menu waits for. The command is the one that the key leads to, if it does. -/
inductive MenuEvent
  | read (d : Directory)
  | key (k : Key) (cd : Cd)

inductive MenuMode
  | start
  | keys
  | returned
deriving DecidableEq

/-- The variables of `menu_browse_files`. `taken` are the buffers that it has allocated since the label
`start`. -/
structure Browser where
  mode : MenuMode
  channels : Channels
  taken : List ℕ
  buf : ℕ
  bufTbl : ℕ
  firstBuf : ℕ
  entries : ℕ
  enterable : ℕ → Bool
  mp : ℕ
  my : ℕ
  action : Bool
  stackMp : ℕ → ℕ
  stackMy : ℕ → ℕ
  posStack : ℕ
  saveActiveBuffers : ℕ

/-- The variables of the loop over the directory. -/
structure Reader where
  channels : Channels
  taken : List ℕ
  bufCur : ℕ
  entries : ℕ
  entryNum : ℕ

namespace Reader

/-- One more entry, in another block if the current one is full. Fails if there is no buffer. -/
def store (r : Reader) : Option Reader :=
  if r.entryNum = ENTRIES_PER_BLOCK then
    match r.channels.allocSystemBuffer with
    | (none, _) => none
    | (some i, b) =>
      let b := b.setChan i { b.chan i with next := none }
      some
        { channels := b.setChan r.bufCur { b.chan r.bufCur with next := some i }
          taken := i :: r.taken
          bufCur := i
          entries := r.entries + 1
          entryNum := 1 }
  else some { r with entries := r.entries + 1, entryNum := r.entryNum + 1 }

/-- `n` more entries, and whether there was room for them. -/
def read : ℕ → Reader → List Lookup × Bool × Reader
  | 0, r => ([], true, r)
  | n + 1, r =>
    match r.store with
    | none => ([], false, { r with channels := r.channels.noChannel })
    | some r' =>
      let rest := read n r'
      (.ep r.entries :: rest.1, rest.2)

end Reader

namespace Browser

/-- `y` for line `i` of the display, an `int8_t`. -/
def line (v : Browser) (i : ℕ) : ℤ := Int.bmod (v.mp - v.my + i) 256

/-- The lines of the display, and whether one of them is negative. -/
def drawLines (v : Browser) : List ℕ → List Lookup × Bool
  | [] => ([], false)
  | i :: is =>
    let y := v.line i
    if y < 0 then ([], true)
    else if y < DIRNAV_OFFSET then v.drawLines is
    else
      let y := (y - DIRNAV_OFFSET).toNat
      if v.entries ≤ y then ([], false)
      else
        let rest := v.drawLines is
        (.lcdPrintDirEntry y v.entries :: .ep y :: rest.1, rest.2)

/-- The top of the outer loop. A negative line ends the function. -/
def draw (v : Browser) : List Lookup × Browser :=
  let r := v.drawLines (List.range LCD_LINES)
  (r.1, if r.2 then { v with mode := .returned } else v)

/-- The code at `reread`, from `cleanup` on if that is the way to it. -/
def reread (v : Browser) (cleanup : Bool) : Browser :=
  let mp := if cleanup then 0 else v.mp
  { v with
    channels := v.channels.reread v.saveActiveBuffers v.buf v.bufTbl v.firstBuf
    mp
    mode := if mp = 0 then .returned else .start }

/-- The directory is read and listed; the cursor is put where it was at this depth. -/
def showEntries (v : Browser) : List Lookup × Browser :=
  let mp := v.stackMp v.posStack
  let r := draw { v with
    mode := .keys
    mp
    my := if mp < LCD_LINES - 1 then mp else 0
    action := false }
  ((List.range v.entries).map .ep ++ .stack v.posStack :: (List.range MAX_LASTPOS).map .stack ++ r.1, r.2)

/-- The code behind `opendir`, until the first key is waited for. -/
def readEntries (v : Browser) (d : Directory) : List Lookup × Browser :=
  let r := Reader.read d.entries ⟨v.channels, v.taken, v.firstBuf, 0, 0⟩
  let v := { v with
    channels := r.2.2.channels
    taken := r.2.2.taken
    entries := r.2.2.entries
    enterable := d.enterable }
  if r.2.1 then
    let shown := v.showEntries
    (r.1 ++ shown.1, shown.2)
  else (r.1, v.reread true)

/-- The code from `start` on. -/
def start (v : Browser) (d : Directory) : List Lookup × Browser :=
  match v.channels.allocSystemBuffer with
  | (none, b) => ([], { v with mode := .returned, channels := b, taken := [] })
  | (some buf, b) =>
    match b.allocLinkedBuffers CONFIG_DIR_BUFFERS with
    | (none, b) => ([], { v with mode := .returned, channels := b, taken := [buf] })
    | (some tbl, b) =>
      let taken := buf :: List.range' tbl CONFIG_DIR_BUFFERS
      match b.allocSystemBuffer with
      | (none, b) => ([], { v with mode := .returned, channels := b, taken })
      | (some first, b) =>
        let v := { v with buf, bufTbl := tbl, firstBuf := first, taken := first :: taken, channels := b }
        if d.opendirFails then ([], { v with mode := .returned }) else v.readEntries d

/-- The loop that moves the cursor to the line of its entry. The difference is an `unsigned int`; the
line is that of the entry when it is 0 or 1. -/
def fixMy (mp : ℕ) : ℕ → ℕ
  | 0 => 0
  | my + 1 => if DIRNAV_OFFSET ≤ (mp + 65536 - (my + 1)) % 65536 then fixMy mp my else my + 1

/-- A key, and whether the inner loop is left. -/
def press (v : Browser) : Key → Bool × Browser
  | .prev =>
    if 0 < v.mp then
      let mp := v.mp - 1
      if 0 < v.my then (false, { v with mp, my := v.my - 1 })
      else (true, { v with mp, my := if mp < LCD_LINES then fixMy mp (LCD_LINES - 1) else LCD_LINES - 1 })
    else (true, { v with mp := v.entries + DIRNAV_OFFSET - 1, my := LCD_LINES - 2 })
  | .next =>
    if v.mp < v.entries + DIRNAV_OFFSET - 1 then
      if v.my < LCD_LINES - 1 then (false, { v with mp := v.mp + 1, my := v.my + 1 })
      else (true, { v with mp := v.mp + 1, my := 0 })
    else (true, { v with mp := 0, my := 0 })
  | .sel => (true, { v with action := true })

/-- What the outer loop does after a key: nothing but draw again, or the choice that the cursor is at. -/
inductive Choice
  | redraw
  | abort
  | parent
  | file
  | enter
deriving DecidableEq

def choice (v : Browser) : Choice :=
  if !v.action then .redraw
  else if v.mp = 0 then .abort
  else if v.mp = 1 then .parent
  else if v.enterable (v.mp - DIRNAV_OFFSET) then .enter
  else .file

/-- The buffers after a `CD` command. -/
def afterCd (v : Browser) (cd : Cd) : Browser :=
  { v with channels := (cd.run v.channels).2 }

/-- The rest of the outer loop. -/
def act (v : Browser) (cd : Cd) : List Lookup × Browser :=
  match v.choice with
  | .redraw => v.draw
  | .abort => ([], v.reread true)
  | .parent =>
    let v' := { v.afterCd cd with
      stackMp := Function.update v.stackMp v.posStack 0
      stackMy := Function.update v.stackMy v.posStack 0
      posStack := v.posStack - 1 }
    ([.stack v.posStack], v'.reread (cd.run v.channels).1)
  | .file =>
    let r := v.draw
    (.ep (v.mp - DIRNAV_OFFSET) :: r.1, r.2)
  | .enter =>
    if (cd.run v.channels).1 then ([.ep (v.mp - DIRNAV_OFFSET)], (v.afterCd cd).reread true)
    else if v.posStack < MAX_LASTPOS then
      let v' := { v.afterCd cd with
        stackMp := Function.update v.stackMp v.posStack v.mp
        stackMy := Function.update v.stackMy v.posStack v.my
        posStack := v.posStack + 1 }
      ([.ep (v.mp - DIRNAV_OFFSET), .stack v.posStack], v'.reread false)
    else ([.ep (v.mp - DIRNAV_OFFSET)], (v.afterCd cd).reread false)

def step (v : Browser) : MenuEvent → List Lookup × Browser
  | .read d => if v.mode = .start then v.start d else ([], v)
  | .key k cd =>
    if v.mode = .keys then
      let r := v.press k
      if r.1 then r.2.act cd else ([], r.2)
    else ([], v)

end Browser

/-- `menu_browse_files` when it is called. -/
def menuBrowser (b : Channels) : Browser :=
  { mode := .start, channels := b, taken := [], buf := 0, bufTbl := 0, firstBuf := 0, entries := 0
    enterable := fun _ => false, mp := 0, my := 0, action := false, stackMp := fun _ => 0
    stackMy := fun _ => 0, posStack := 0, saveActiveBuffers := b.table.activeBuffers }

namespace Browser

variable {v : Browser}

/-- The cursor stands on the display, in front of elements of `ep` only. -/
structure OnDisplay (v : Browser) : Prop where
  my_le : v.my ≤ v.mp
  my_lt : v.my < LCD_LINES
  mp_le : v.mp ≤ EP_SIZE + 1
  entries_le : v.entries ≤ EP_SIZE

theorem OnDisplay.line (h : v.OnDisplay) {i : ℕ} (hi : i < LCD_LINES) :
    v.line i = (v.mp - v.my + i : ℕ) := by
  have hle := h.my_le
  have hmp := h.mp_le
  have hsize : EP_SIZE = 26 := rfl
  have hlines : LCD_LINES = 4 := rfl
  rw [Browser.line, ← Int.ofNat_sub hle, ← Int.natCast_add]
  exact Int.bmod_eq_of_le (by omega) (by omega)

theorem OnDisplay.drawLines (h : v.OnDisplay) (is : List ℕ) (his : ∀ i ∈ is, i < LCD_LINES) :
    (∀ a ∈ (v.drawLines is).1, a.Ok) ∧ (v.drawLines is).2 = false := by
  induction is with
  | nil => exact ⟨fun a ha => absurd ha List.not_mem_nil, rfl⟩
  | cons i is ih =>
    obtain ⟨hok, hneg⟩ := ih fun j hj => his j (List.mem_cons_of_mem i hj)
    have hentries := h.entries_le
    rw [Browser.drawLines, h.line (his i List.mem_cons_self)]
    dsimp only
    rw [if_neg (by omega)]
    split
    · exact ⟨hok, hneg⟩
    · split
      · exact ⟨fun a ha => absurd ha List.not_mem_nil, rfl⟩
      · next hlt =>
        refine ⟨fun a ha => ?_, hneg⟩
        obtain rfl | ha := List.mem_cons.mp ha
        · exact Nat.lt_of_not_le hlt
        · obtain rfl | ha := List.mem_cons.mp ha
          · exact Nat.lt_of_lt_of_le (Nat.lt_of_not_le hlt) hentries
          · exact hok a ha

/-- The display is drawn without a negative line. -/
theorem OnDisplay.draw (h : v.OnDisplay) : (∀ a ∈ v.draw.1, a.Ok) ∧ v.draw.2 = v := by
  obtain ⟨hok, hneg⟩ := h.drawLines (List.range LCD_LINES) fun i hi => List.mem_range.mp hi
  refine ⟨hok, ?_⟩
  rw [Browser.draw, hneg]
  rfl

theorem showEntries_ok (hentries : v.entries ≤ EP_SIZE) (hpos : v.posStack < MAX_LASTPOS)
    (hmp : v.stackMp v.posStack ≤ EP_SIZE + 1) :
    (∀ a ∈ v.showEntries.1, a.Ok) ∧ v.showEntries.2 = { v with
      mode := .keys
      mp := v.stackMp v.posStack
      my := if v.stackMp v.posStack < LCD_LINES - 1 then v.stackMp v.posStack else 0
      action := false } ∧ v.showEntries.2.OnDisplay := by
  have hlines : LCD_LINES = 4 := rfl
  have hshown : OnDisplay { v with
      mode := .keys
      mp := v.stackMp v.posStack
      my := if v.stackMp v.posStack < LCD_LINES - 1 then v.stackMp v.posStack else 0
      action := false } := by
    refine ⟨?_, ?_, hmp, hentries⟩
    · dsimp only
      split <;> omega
    · dsimp only
      split <;> omega
  obtain ⟨hok, heq⟩ := hshown.draw
  refine ⟨fun a ha => ?_, heq, heq.symm ▸ hshown⟩
  rw [Browser.showEntries, List.append_assoc, List.mem_append, List.cons_append, List.mem_cons,
    List.mem_append, List.mem_map, List.mem_map] at ha
  obtain ⟨i, hi, rfl⟩ | rfl | ⟨i, hi, rfl⟩ | ha := ha
  · exact Nat.lt_of_lt_of_le (List.mem_range.mp hi) hentries
  · exact hpos
  · exact List.mem_range.mp hi
  · exact hok a ha

theorem fixMy_eq {mp my : ℕ} (hle : mp ≤ my) (hmy : my < LCD_LINES) : fixMy mp my = mp := by
  have hlines : LCD_LINES = 4 := rfl
  have hoffset : DIRNAV_OFFSET = 2 := rfl
  induction my with
  | zero => exact (Nat.le_zero.mp hle).symm
  | succ my ih =>
    rw [fixMy]
    by_cases heq : mp = my + 1
    · rw [if_neg (by omega), heq]
    · rw [if_pos (by omega)]
      exact ih (by omega) (by omega)

/-- A key that is not the one up from the first line of an empty directory. -/
theorem OnDisplay.press (h : v.OnDisplay) {k : Key} (hk : ¬(k = .prev ∧ v.mp = 0 ∧ v.entries = 0)) :
    (v.press k).2.OnDisplay := by
  obtain ⟨hle, hlt, hmp, hentries⟩ := h
  have hlines : LCD_LINES = 4 := rfl
  have hoffset : DIRNAV_OFFSET = 2 := rfl
  cases k with
  | prev =>
    rw [Browser.press]
    split
    · dsimp only
      split
      · exact ⟨by dsimp only; omega, by dsimp only; omega, by dsimp only; omega, hentries⟩
      · refine ⟨?_, ?_, by dsimp only; omega, hentries⟩
        · dsimp only
          split
          · rw [fixMy_eq (by omega) (by omega)]
          · omega
        · dsimp only
          split
          · rw [fixMy_eq (by omega) (by omega)]
            omega
          · omega
    · next hzero =>
      have hsome : v.entries ≠ 0 := fun hnone => hk ⟨rfl, by omega, hnone⟩
      exact ⟨by dsimp only; omega, by dsimp only; omega, by dsimp only; omega, hentries⟩
  | next =>
    rw [Browser.press]
    split
    · split
      · exact ⟨by dsimp only; omega, by dsimp only; omega, by dsimp only; omega, hentries⟩
      · exact ⟨by dsimp only; omega, by dsimp only; omega, by dsimp only; omega, hentries⟩
    · exact ⟨Nat.le_refl 0, by dsimp only; omega, Nat.zero_le _, hentries⟩
  | sel => exact ⟨hle, hlt, hmp, hentries⟩

theorem press_frame (v : Browser) (k : Key) :
    ∃ mp my action, (v.press k).2 = { v with mp, my, action } := by
  cases k with
  | prev =>
    rw [press]
    split
    · dsimp only
      split <;> exact ⟨_, _, v.action, rfl⟩
    · exact ⟨_, _, v.action, rfl⟩
  | next =>
    rw [press]
    split
    · split <;> exact ⟨_, _, v.action, rfl⟩
    · exact ⟨_, _, v.action, rfl⟩
  | sel => exact ⟨v.mp, v.my, true, rfl⟩

/-- The key up from the first line of an empty directory, behind a file that was selected. -/
theorem press_prev_empty (hmp : v.mp = 0) (hentries : v.entries = 0) (haction : v.action = true) :
    (v.press .prev).1 = true ∧ (v.press .prev).2.mp = 1 ∧ (v.press .prev).2.choice = .parent := by
  have heq : v.press .prev = (true, { v with mp := 1, my := LCD_LINES - 2 }) := by
    rw [press, if_neg (by omega), hentries]
    rfl
  rw [heq, choice, haction]
  exact ⟨rfl, rfl, rfl⟩

end Browser

end NoDiskEmu
