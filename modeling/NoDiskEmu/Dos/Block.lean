import NoDiskEmu.Buffers.Direct
import NoDiskEmu.Dos.Parser

/-! The block commands (`B-R`, `B-W`, `B-P`, `U1`, `U2`) and the direct sector access (`DI`, `DR`,
`DW`) of `doscmd.c`. -/

namespace NoDiskEmu

/-- The bytes from the start of buffer `i` on that an assignment to its data reaches; the data of the
buffers lie one behind the other. -/
def Access.Touches (j : ℕ) : Access → Prop
  | fields i => j = i
  | bytes i n => i ≤ j ∧ 256 * (j - i) < n
  | null => False

/-- An assignment that stays within `n` buffers from `start` on. -/
def Access.Within (start n : ℕ) : Access → Prop
  | fields i => start ≤ i ∧ i < start + n
  | bytes i m => start ≤ i ∧ 256 * (i - start) + m ≤ 256 * n
  | null => False

/-- `n` bytes are copied to the data of buffer `i`. -/
def Traced.putBytes (t : Traced) (i n : ℕ) (data : ℕ → UInt8) : Traced where
  chans := { t.chans with table := { t.chans.table with
    buffers := fun j =>
      let b := t.chans.table.buffers j
      if i ≤ j ∧ 256 * (j - i) < n then
        { b with data := fun p =>
            if 256 * (j - i) + p < n then data (256 * (j - i) + p) else b.data p }
      else b } }
  log := t.log ++ [.bytes i n]

namespace Dos

def ERROR_SYNTAX_UNABLE : ℕ := 31
def ERROR_NO_CHANNEL : ℕ := 70
def ERROR_BUFFER_TOO_SMALL : ℕ := 78
def CURSOR_RIGHT : UInt8 := 29

/-- The media behind the commands. `read_sector` and `disk_read` say which bytes they put into the
buffer, if any, and all of them which error they report (0 for none). -/
structure Media where
  readSector : ℕ → ℕ → ℕ → ℕ × Option (ℕ → UInt8)
  writeSector : ℕ → ℕ → ℕ → (ℕ → UInt8) → ℕ
  diskGetinfo : ℕ → ℕ → Option (ℕ → UInt8)
  diskRead : ℕ → (ℕ → UInt8) → ℕ × Option (ℕ → UInt8)
  diskWrite : ℕ → (ℕ → UInt8) → (ℕ → UInt8) → ℕ

/-- The command buffer up to `command_length`, which is cleared behind it. -/
def cleanCmdbuffer (buffer : ℕ → UInt8) (length : ℕ) : List UInt8 := (List.range length).map buffer

/-- The loop of `parse_blockparam` for at most `count` parameters, each of them a byte. -/
def blockParams : ℕ → List UInt8 → List ℕ
  | 0, _ => []
  | count + 1, s =>
    let s := s.dropWhile fun c => c = 32 || c = CURSOR_RIGHT || c = 44
    if peek s = 0 then []
    else
      let r := parseNumber s
      r.1 % 256 :: blockParams count r.2

def parseBlockparam (s : List UInt8) : Option (List ℕ) :=
  match ustrchr s 58 with
  | some rest => some (blockParams 4 rest.tail)
  | none => if (s.takeWhile (· ≠ 0)).length < 3 then none else some (blockParams 4 (s.drop 3))

/-- Block-read of `parse_block` on the buffer that was found. -/
def blockRead (media : Media) (b : Bool) (i track sector : ℕ) (t : Traced) : ℕ × Traced :=
  let r := media.readSector (t.chans.chan i).part track sector
  let t := match r.2 with
    | none => t
    | some data => t.putBytes i 256 data
  (r.1, t.assign (some i) fun i c => c.setChan i { c.chan i with
    position := if b then 1 else 0
    lastused := if b then ((c.table.buffers i).data 0).toNat else 255 })

/-- Block-write of `parse_block`; the first byte is set by `B-W` only. -/
def blockWrite (media : Media) (b : Bool) (i track sector : ℕ) (t : Traced) : ℕ × Traced :=
  let t := if b then t.putBytes i 1 fun _ => .ofNat ((t.chans.chan i).position + 255) else t
  (media.writeSector (t.chans.chan i).part track sector (t.chans.table.buffers i).data, t)

/-- `parse_block`, with the number of the error it reports. -/
def parseBlock (media : Media) (s : List UInt8) (t : Traced) : ℕ × Traced :=
  match ustrchr s 45 with
  | none => (ERROR_SYNTAX_UNABLE, t)
  | some str =>
    match parseBlockparam s with
    | none => (0, t)
    | some values =>
      let params := fun n => values.getD n 0
      let letter := peek str.tail
      if letter = 82 ∨ letter = 87 then
        match t.chans.table.findBuffer (params 0) with
        | none => (ERROR_NO_CHANNEL, t)
        | some i =>
          if letter = 82 then blockRead media (peek s = 66) i (params 2) (params 3) t
          else blockWrite media (peek s = 66) i (params 2) (params 3) t
      else if letter = 80 then
        let r := t.blockPosition (params 0) (params 1) (params 2)
        (if r.1 then 0 else ERROR_NO_CHANNEL, r.2)
      else (ERROR_SYNTAX_UNABLE, t)

/-- The first buffer of a large one becomes the one of the host. -/
def rewind (i : ℕ) (t : Traced) : Option ℕ × Traced :=
  if 1 < (t.chans.chan i).size then
    let oldsec := (t.chans.table.buffers i).secondary
    let t := t.assign (some i) fun i c => c.setSecondary i (chainSecondary oldsec)
    let buf := (t.chans.chan i).first
    (buf, t.assign buf fun i c => c.setSecondary i oldsec)
  else (some i, t)

/-- The command proper of `parse_direct`. -/
def directCommand (media : Media) (buffer : ℕ → UInt8) (i : ℕ) (t : Traced) : ℕ × Traced :=
  let drive := (buffer 3).toNat
  let sector := fun n => buffer (4 + n)
  if buffer 1 = 73 then
    let t := t.putBytes i 256 fun _ => 0
    match media.diskGetinfo drive (buffer 4).toNat with
    | none => (ERROR_DRIVE_NOT_READY, t)
    | some info => (0, t.putBytes i 8 info)
  else if buffer 1 = 82 then
    if (t.chans.chan i).size < 2 then (ERROR_BUFFER_TOO_SMALL, t)
    else
      let r := media.diskRead drive sector
      (r.1, match r.2 with | none => t | some data => t.putBytes i 512 data)
  else if buffer 1 = 87 then
    if (t.chans.chan i).size < 2 then (ERROR_BUFFER_TOO_SMALL, t)
    else (media.diskWrite drive sector (t.chans.table.buffers i).data, t)
  else (ERROR_SYNTAX_UNABLE, t)

/-- `parse_direct`, which reads the command buffer whatever its length is. -/
def parseDirect (media : Media) (buffer : ℕ → UInt8) (t : Traced) : ℕ × Traced :=
  match t.chans.table.findBuffer (buffer 2).toNat with
  | none => (ERROR_NO_CHANNEL, t)
  | some i =>
    let r := rewind i t
    let t := r.2.assign r.1 fun i c => c.setChan i { c.chan i with position := 0, lastused := 255 }
    match r.1 with
    -- The rest works on whatever NULL points to.
    | none => (0, t)
    | some i => directCommand media buffer i t

/-- The commands that `parse_doscommand` and `parse_user` pass on to `parse_block` and
`parse_direct`. -/
inductive Dispatch
  | block (s : List UInt8)
  | direct

def dispatch (buffer : ℕ → UInt8) (length : ℕ) : Option Dispatch :=
  if buffer 0 ≠ 88 ∧ buffer 1 = 68 then none
  else if buffer 0 = 66 then some (.block (cleanCmdbuffer buffer length))
  else if buffer 0 = 68 then some .direct
  else if buffer 0 = 85 ∧ buffer 1 ≠ 202 then
    -- `U1` and `U2` are rewritten as `-R` and `-W`.
    let rewritten := fun letter => Function.update (Function.update buffer 0 45) 1 letter
    if (buffer 1).toNat % 16 = 1 then some (.block (cleanCmdbuffer (rewritten 82) length))
    else if (buffer 1).toNat % 16 = 2 then some (.block (cleanCmdbuffer (rewritten 87) length))
    else none
  else none

/-- A command that goes to one of the two parsers, with the assignments it makes. -/
def command (media : Media) (buffer : ℕ → UInt8) (length : ℕ) (b : Channels) : ℕ × Traced :=
  match dispatch buffer length with
  | none => (0, ⟨b, []⟩)
  | some (.block s) => parseBlock media s ⟨b, []⟩
  | some .direct => parseDirect media buffer ⟨b, []⟩

/-- The channel number of a block command that assigns to a buffer; `U2` does not. -/
def blockTarget (s : List UInt8) : Option ℕ :=
  match ustrchr s 45 with
  | none => none
  | some str =>
    match parseBlockparam s with
    | none => none
    | some values =>
      let letter := peek str.tail
      if letter = 82 ∨ letter = 80 ∨ letter = 87 ∧ peek s = 66 then some (values.getD 0 0) else none

/-- The channel number that a command names as the one it assigns to. -/
def target (buffer : ℕ → UInt8) (length : ℕ) : Option ℕ :=
  match dispatch buffer length with
  | none => none
  | some (.block s) => blockTarget s
  | some .direct => some (buffer 2).toNat

/-- The `n` buffers from `start` on are a channel that was opened with `#` or `##n` on the secondary
address `sec`. -/
structure DirectAccess (b : Channels) (sec n start : ℕ) : Prop where
  sec_lt : sec < 15
  room : start + n ≤ b.count
  refill : ∀ j < n, (b.chan (start + j)).refill = .directbufferRefill
  size : ∀ j < n, (b.chan (start + j)).size = n
  first : ∀ j < n, (b.chan (start + j)).first = some start
  next : ∀ j < n, (b.chan (start + j)).next = if j + 1 < n then some (start + j + 1) else none
  labelled : b.Labelled sec n start

/-- All assignments of a command go to the channel it names. -/
def Confined (b : Channels) (sec? : Option ℕ) (log : List Access) : Prop :=
  log = [] ∨ ∃ sec n start, sec? = some sec ∧ DirectAccess b sec n start ∧
    ∀ a ∈ log, a.Within start n

/-- The channel number leads to no buffer, or to one of a direct-access channel on that address. -/
def NamesDirect (b : Channels) (sec? : Option ℕ) : Prop :=
  ∀ sec i, sec? = some sec → b.table.findBuffer sec = some i →
    ∃ n start, DirectAccess b sec n start ∧ start ≤ i ∧ i < start + n

variable {b : Channels} {sec n start : ℕ}

theorem DirectAccess.of_opened {k : ℕ} (hsec : sec < 15) (h : b.Opened sec n start k) :
    DirectAccess b sec n start :=
  ⟨hsec, h.room, fun j hj => (h.member j hj).refill, fun j hj => (h.member j hj).size,
    fun j hj => (h.member j hj).first, fun j hj => (h.member j hj).next, h.labelled⟩

/-- What a command does to a buffer: nothing, or assignments that begin with the buffer itself and, if
it belongs to a direct-access channel, stay in that channel. -/
structure Assigns (b : Channels) (i : ℕ) (t : Traced) : Prop where
  begins : ∃ a rest, t.log = a :: rest ∧ a.Touches i
  within : ∀ sec n start, DirectAccess b sec n start → start ≤ i → i < start + n →
    ∀ a ∈ t.log, a.Within start n

theorem assign_log (t : Traced) (buf : Option ℕ) (f : ℕ → Channels → Channels) :
    (t.assign buf f).log = t.log ++ [buf.elim .null .fields] := by
  cases buf <;> rfl

/-- An assignment that stays in a channel touches buffers of it only. -/
theorem touches_within {a : Access} {i : ℕ} (htouch : a.Touches i) (hwithin : a.Within start n) :
    start ≤ i ∧ i < start + n := by
  cases a with
  | fields j =>
    obtain rfl : i = j := htouch
    exact hwithin
  | bytes j m =>
    obtain ⟨hle, hlt⟩ := htouch
    obtain ⟨hle', hm⟩ := hwithin
    omega
  | null => exact htouch.elim

theorem assigns_blockRead (media : Media) (flag : Bool) (i track sector : ℕ) :
    Assigns b i (blockRead media flag i track sector ⟨b, []⟩).2 := by
  rw [blockRead]
  cases (media.readSector (b.chan i).part track sector).2 with
  | none =>
    refine ⟨⟨_, _, rfl, rfl⟩, fun sec n start _ hle hlt a ha => ?_⟩
    obtain rfl := List.mem_singleton.mp ha
    exact ⟨hle, hlt⟩
  | some data =>
    refine ⟨⟨.bytes i 256, _, rfl, ?_⟩, fun sec n start _ hle hlt a ha => ?_⟩
    · exact ⟨Nat.le_refl i, by omega⟩
    · simp only [Traced.assign, Traced.putBytes, List.nil_append, List.mem_append,
        List.mem_singleton] at ha
      rcases ha with rfl | rfl
      · exact ⟨hle, by omega⟩
      · exact ⟨hle, hlt⟩

theorem assigns_blockWrite (media : Media) (i track sector : ℕ) :
    Assigns b i (blockWrite media true i track sector ⟨b, []⟩).2 := by
  refine ⟨⟨.bytes i 1, [], rfl, Nat.le_refl i, by omega⟩, fun sec n start _ hle hlt a ha => ?_⟩
  obtain rfl := List.mem_singleton.mp ha
  exact ⟨hle, by omega⟩

theorem assigns_blockPosition {i : ℕ} (hfind : b.table.findBuffer sec = some i) (lo hi : ℕ) :
    Assigns b i ((Traced.mk b []).blockPosition sec lo hi).2 := by
  rw [Traced.blockPosition, hfind]
  dsimp only
  split
  · next hsize =>
    refine ⟨⟨.fields i, _, by rw [assign_log, assign_log]; rfl, rfl⟩,
      fun sec' n start hdirect hle hlt a ha => ?_⟩
    -- The walk ends at a buffer of the chain.
    have hwalk : Traced.walkChain (b.setSecondary i (chainSecondary sec)) hi (b.chan i).first =
        some (start + hi % n) := by
      have hfirst := hdirect.first (i - start) (by omega)
      rw [show start + (i - start) = i by omega] at hfirst
      have hstart := Channels.walkChain_eq (b := b.setSecondary i (chainSecondary sec))
        hdirect.first hdirect.next hi (show 0 < n by omega)
      rwa [Nat.add_zero, Nat.zero_add, ← hfirst] at hstart
    have hmod : hi % n < n := Nat.mod_lt _ (by omega)
    rw [assign_log, assign_log] at ha
    simp only [List.nil_append, List.mem_append, List.mem_singleton] at ha
    rcases ha with rfl | rfl
    · exact ⟨hle, hlt⟩
    · change ((Traced.walkChain (b.setSecondary i (chainSecondary sec)) hi
        (b.chan i).first).elim Access.null Access.fields).Within start n
      rw [hwalk]
      exact ⟨by omega, by omega⟩
  · refine ⟨⟨_, _, rfl, rfl⟩, fun sec n start _ hle hlt a ha => ?_⟩
    obtain rfl := List.mem_singleton.mp ha
    exact ⟨hle, hlt⟩

/-- In a direct-access channel the host is left with the first buffer. -/
theorem rewind_direct {t : Traced} {i : ℕ} (hchan : t.chans.chan = b.chan)
    (hdirect : DirectAccess b sec n start) (hle : start ≤ i) (hlt : i < start + n)
    (hlog : ∀ a ∈ t.log, a.Within start n) :
    (rewind i t).1 = some start ∧ (rewind i t).2.chans.chan = b.chan ∧
      ∀ a ∈ (rewind i t).2.log, a.Within start n := by
  have hi : start + (i - start) = i := by omega
  have hsize := hdirect.size (i - start) (by omega)
  have hfirst := hdirect.first (i - start) (by omega)
  rw [hi] at hsize hfirst
  rw [rewind, hchan, hsize]
  split
  · next hmany =>
    have hbuf : (t.chans.chan i).first = some start := by
      rw [hchan, hfirst]
    refine ⟨hbuf, ?_, fun a ha => ?_⟩
    · change (Traced.assign _ (t.chans.chan i).first _).chans.chan = b.chan
      rw [hbuf]
      exact hchan
    · change a ∈ (Traced.assign _ (t.chans.chan i).first _).log at ha
      rw [hbuf, assign_log, assign_log] at ha
      simp only [List.mem_append, List.mem_singleton] at ha
      rcases ha with (ha | rfl) | rfl
      · exact hlog a ha
      · exact ⟨hle, hlt⟩
      · exact ⟨Nat.le_refl start, by omega⟩
  · exact ⟨by rw [show i = start by omega], hchan, hlog⟩

/-- The command proper only adds to the log. -/
theorem directCommand_log (media : Media) (buffer : ℕ → UInt8) (i : ℕ) (t : Traced) :
    ∃ more, (directCommand media buffer i t).2.log = t.log ++ more ∧
      ∀ a ∈ more, a = .bytes i 256 ∨ a = .bytes i 8 ∨ a = .bytes i 512 ∧ 2 ≤ (t.chans.chan i).size := by
  unfold directCommand
  dsimp only
  split
  · cases media.diskGetinfo (buffer 3).toNat (buffer 4).toNat with
    | none => exact ⟨[.bytes i 256], rfl, by simp⟩
    | some info => exact ⟨[.bytes i 256, .bytes i 8], by simp [Traced.putBytes], by simp⟩
  · split
    · split
      · exact ⟨[], by simp, by simp⟩
      · next hsize =>
        cases (media.diskRead (buffer 3).toNat fun n => buffer (4 + n)).2 with
        | none => exact ⟨[], by simp, by simp⟩
        | some data =>
          have hlarge : 2 ≤ (t.chans.chan i).size := by omega
          refine ⟨[.bytes i 512], rfl, fun a ha => ?_⟩
          exact .inr (.inr ⟨List.mem_singleton.mp ha, hlarge⟩)
    · split
      · split <;> exact ⟨[], by simp, by simp⟩
      · exact ⟨[], by simp, by simp⟩

/-- The log of `parse_direct` begins with the buffer that was found. -/
theorem parseDirect_begins (media : Media) {buffer : ℕ → UInt8} {i : ℕ}
    (hfind : b.table.findBuffer (buffer 2).toNat = some i) :
    ∃ rest, (parseDirect media buffer ⟨b, []⟩).2.log = .fields i :: rest := by
  rw [parseDirect, hfind]
  dsimp only
  have hassigned : ∀ f, ∃ rest,
      ((rewind i ⟨b, []⟩).2.assign (rewind i ⟨b, []⟩).1 f).log = .fields i :: rest := by
    intro f
    rw [assign_log, rewind]
    split
    · exact ⟨_, by rw [assign_log, assign_log]; rfl⟩
    · exact ⟨_, rfl⟩
  obtain ⟨rest, hrest⟩ := hassigned fun i c =>
    c.setChan i { c.chan i with position := 0, lastused := 255 }
  split
  · exact ⟨rest, hrest⟩
  · next j _ =>
    obtain ⟨more, hmore, -⟩ := directCommand_log media buffer j ((rewind i ⟨b, []⟩).2.assign
      (rewind i ⟨b, []⟩).1 fun i c => c.setChan i { c.chan i with position := 0, lastused := 255 })
    rw [hmore, hrest]
    exact ⟨rest ++ more, rfl⟩

theorem assigns_parseDirect (media : Media) {buffer : ℕ → UInt8} {i : ℕ}
    (hfind : b.table.findBuffer (buffer 2).toNat = some i) :
    Assigns b i (parseDirect media buffer ⟨b, []⟩).2 := by
  obtain ⟨rest, hrest⟩ := parseDirect_begins media hfind
  refine ⟨⟨_, rest, hrest, rfl⟩, fun sec n start hdirect hle hlt a ha => ?_⟩
  rw [parseDirect, hfind] at ha
  dsimp only at ha
  obtain ⟨hbuf, hchan, hlog⟩ := rewind_direct (t := ⟨b, []⟩) rfl hdirect hle hlt (by simp)
  rw [hbuf] at ha
  dsimp only at ha
  obtain ⟨more, hmore, hbytes⟩ := directCommand_log media buffer start ((rewind i ⟨b, []⟩).2.assign
    (some start) fun i c => c.setChan i { c.chan i with position := 0, lastused := 255 })
  have hsize : (((rewind i ⟨b, []⟩).2.assign (some start) fun i c => c.setChan i
      { c.chan i with position := 0, lastused := 255 }).chans.chan start).size = n := by
    show (Channels.chan (Channels.setChan _ _ _) start).size = n
    rw [Channels.setChan_self, hchan]
    exact hdirect.size 0 (by omega)
  rw [hmore, assign_log] at ha
  rw [hsize] at hbytes
  simp only [List.mem_append, List.mem_singleton] at ha
  rcases ha with (ha | rfl) | ha
  · exact hlog a ha
  · exact ⟨Nat.le_refl start, by omega⟩
  · rcases hbytes a ha with rfl | rfl | ⟨rfl, hn⟩
    · exact ⟨Nat.le_refl start, by omega⟩
    · exact ⟨Nat.le_refl start, by omega⟩
    · exact ⟨Nat.le_refl start, by omega⟩

/-- A command assigns to nothing if it names no channel or one that is not open; else it assigns to the
buffer that was found. -/
def Result (b : Channels) (sec? : Option ℕ) (t : Traced) : Prop :=
  t.log = [] ∧ (∀ sec i, sec? = some sec → b.table.findBuffer sec ≠ some i) ∨
    ∃ sec i, sec? = some sec ∧ b.table.findBuffer sec = some i ∧ Assigns b i t

theorem Result.untargeted {t : Traced} (h : t.log = []) : Result b none t :=
  .inl ⟨h, fun _ _ hsec => nomatch hsec⟩

theorem Result.unopened {t : Traced} (h : t.log = []) (hfind : b.table.findBuffer sec = none) :
    Result b (some sec) t := by
  refine .inl ⟨h, fun sec' i hsec => ?_⟩
  obtain rfl := Option.some.inj hsec
  rw [hfind]
  exact fun hfound => nomatch hfound

theorem result_parseBlock (media : Media) (s : List UInt8) (b : Channels) :
    Result b (blockTarget s) (parseBlock media s ⟨b, []⟩).2 := by
  unfold parseBlock blockTarget
  cases ustrchr s 45 with
  | none => exact .untargeted rfl
  | some str =>
    cases parseBlockparam s with
    | none => exact .untargeted rfl
    | some values =>
      dsimp only
      generalize peek str.tail = letter
      cases hfind : b.table.findBuffer (values.getD 0 0) with
      | none =>
        have hlog : ∀ r : ℕ × Traced, r.2.log = [] →
            Result b (if letter = 82 ∨ letter = 80 ∨ letter = 87 ∧ peek s = 66 then
              some (values.getD 0 0) else none) r.2 := by
          intro r hr
          split
          · exact .unopened hr hfind
          · exact .untargeted hr
        apply hlog
        split
        · rfl
        · split
          · rw [Traced.blockPosition, hfind]
          · rfl
      | some i =>
        dsimp only
        have hsame : ∀ {p : Prop} [Decidable p] (r : Traced), p → Assigns b i r →
            Result b (if p then some (values.getD 0 0) else none) r := by
          intro p _ r hp hr
          rw [if_pos hp]
          exact .inr ⟨_, i, rfl, hfind, hr⟩
        by_cases hread : letter = 82
        · rw [if_pos (show letter = 82 ∨ letter = 87 from .inl hread), if_pos hread]
          exact hsame _ (.inl hread) (assigns_blockRead media _ i _ _)
        by_cases hposition : letter = 80
        · rw [if_neg (show ¬(letter = 82 ∨ letter = 87) by rw [hposition]; decide),
            if_pos hposition]
          exact hsame _ (.inr (.inl hposition)) (assigns_blockPosition hfind _ _)
        by_cases hwrite : letter = 87
        · rw [if_pos (show letter = 82 ∨ letter = 87 from .inr hwrite), if_neg hread]
          by_cases hb : peek s = 66
          · rw [decide_eq_true hb]
            exact hsame _ (.inr (.inr ⟨hwrite, hb⟩)) (assigns_blockWrite media i _ _)
          · have hnone : ¬(letter = 82 ∨ letter = 80 ∨ letter = 87 ∧ peek s = 66) := by
              simp [hread, hposition, hb]
            rw [if_neg hnone, decide_eq_false hb]
            exact .untargeted rfl
        · have hnone : ¬(letter = 82 ∨ letter = 80 ∨ letter = 87 ∧ peek s = 66) := by
            simp [hread, hposition, hwrite]
          rw [if_neg (show ¬(letter = 82 ∨ letter = 87) by simp [hread, hwrite]),
            if_neg hposition, if_neg hnone]
          exact .untargeted rfl

theorem result_command (media : Media) (buffer : ℕ → UInt8) (length : ℕ) (b : Channels) :
    Result b (target buffer length) (command media buffer length b).2 := by
  unfold command target
  split
  · exact .untargeted rfl
  · exact result_parseBlock media _ b
  · cases hfind : b.table.findBuffer (buffer 2).toNat with
    | none => exact .unopened (by rw [parseDirect, hfind]) hfind
    | some i => exact .inr ⟨_, i, rfl, hfind, assigns_parseDirect media hfind⟩

/-- Buffers that no assignment touches are as they were. -/
def Framed (b : Channels) (t : Traced) : Prop :=
  ∀ j, (∀ a ∈ t.log, ¬a.Touches j) →
    t.chans.table.buffers j = b.table.buffers j ∧ t.chans.chan j = b.chan j

theorem Framed.assign {t : Traced} (h : Framed b t) (buf : Option ℕ) {f : ℕ → Channels → Channels}
    (hf : ∀ i c j, j ≠ i → (f i c).table.buffers j = c.table.buffers j ∧ (f i c).chan j = c.chan j) :
    Framed b (t.assign buf f) := by
  intro j hj
  rw [assign_log] at hj
  have hold := h j fun a ha => hj a (List.mem_append_left _ ha)
  cases buf with
  | none => exact hold
  | some i =>
    have hne : j ≠ i := hj (.fields i) (by simp)
    obtain ⟨hb, hc⟩ := hf i t.chans j hne
    exact ⟨hb.trans hold.1, hc.trans hold.2⟩

theorem Framed.putBytes {t : Traced} (h : Framed b t) (i n : ℕ) (data : ℕ → UInt8) :
    Framed b (t.putBytes i n data) := by
  intro j hj
  have hold := h j fun a ha => hj a (List.mem_append_left _ ha)
  have hout : ¬(i ≤ j ∧ 256 * (j - i) < n) := hj (.bytes i n) (List.mem_append_right _ (by simp))
  exact ⟨(if_neg hout).trans hold.1, hold.2⟩

theorem setSecondary_elsewhere (i : ℕ) (c : Channels) (x : ℕ) (j : ℕ) (h : j ≠ i) :
    (c.setSecondary i x).table.buffers j = c.table.buffers j ∧ (c.setSecondary i x).chan j = c.chan j :=
  ⟨Channels.setSecondary_of_ne c x h, rfl⟩

theorem framed_blockPosition {t : Traced} (h : Framed b t) (channel lo hi : ℕ) :
    Framed b (t.blockPosition channel lo hi).2 := by
  unfold Traced.blockPosition
  split
  · exact h
  · split
    · refine (h.assign _ fun i c j hj => setSecondary_elsewhere i c _ j hj).assign _
        fun i c j hj => ⟨?_, ?_⟩
      · rw [Channels.setChan_table, Channels.setSecondary_of_ne _ _ hj]
      · exact Channels.setChan_of_ne _ _ hj
    · exact h.assign _ fun i c j hj => ⟨rfl, Channels.setChan_of_ne _ _ hj⟩

theorem framed_blockRead (media : Media) (flag : Bool) (i track sector : ℕ) {t : Traced}
    (h : Framed b t) : Framed b (blockRead media flag i track sector t).2 := by
  unfold blockRead
  dsimp only
  refine Framed.assign ?_ _ fun i c j hj => ⟨rfl, Channels.setChan_of_ne _ _ hj⟩
  split
  · exact h
  · exact h.putBytes i 256 _

theorem framed_blockWrite (media : Media) (flag : Bool) (i track sector : ℕ) {t : Traced}
    (h : Framed b t) : Framed b (blockWrite media flag i track sector t).2 := by
  unfold blockWrite
  dsimp only
  split
  · exact h.putBytes i 1 _
  · exact h

theorem framed_parseBlock (media : Media) (s : List UInt8) {t : Traced} (h : Framed b t) :
    Framed b (parseBlock media s t).2 := by
  unfold parseBlock
  split
  · exact h
  · split
    · exact h
    · dsimp only
      split
      · split
        · exact h
        · split
          · exact framed_blockRead media _ _ _ _ h
          · exact framed_blockWrite media _ _ _ _ h
      · split
        · exact framed_blockPosition h _ _ _
        · exact h

theorem framed_rewind {t : Traced} (h : Framed b t) (i : ℕ) : Framed b (rewind i t).2 := by
  unfold rewind
  split
  · exact (h.assign _ fun i c j hj => setSecondary_elsewhere i c _ j hj).assign _
      fun i c j hj => setSecondary_elsewhere i c _ j hj
  · exact h

theorem framed_directCommand (media : Media) (buffer : ℕ → UInt8) (i : ℕ) {t : Traced}
    (h : Framed b t) : Framed b (directCommand media buffer i t).2 := by
  unfold directCommand
  dsimp only
  split
  · split
    · exact h.putBytes i 256 _
    · exact (h.putBytes i 256 _).putBytes i 8 _
  · split
    · split
      · exact h
      · dsimp only
        split
        · exact h
        · exact h.putBytes i 512 _
    · split
      · split <;> exact h
      · exact h

theorem framed_command (media : Media) (buffer : ℕ → UInt8) (length : ℕ) (b : Channels) :
    Framed b (command media buffer length b).2 := by
  have hstart : Framed b ⟨b, []⟩ := fun _ _ => ⟨rfl, rfl⟩
  unfold command
  split
  · exact hstart
  · exact framed_parseBlock media _ hstart
  · unfold parseDirect
    split
    · exact hstart
    · next i _ =>
      dsimp only
      have hassigned : Framed b ((rewind i ⟨b, []⟩).2.assign (rewind i ⟨b, []⟩).1 fun i c =>
          c.setChan i { c.chan i with position := 0, lastused := 255 }) :=
        (framed_rewind hstart i).assign _ fun i c j hj => ⟨rfl, Channels.setChan_of_ne _ _ hj⟩
      split
      · exact hassigned
      · exact framed_directCommand media buffer _ hassigned

/-- A block or direct command assigns to no other buffer than those of the direct-access channel that
it names exactly if its channel number, where it leads to a buffer, leads to such a channel; and what
it does not assign to stays as it was. -/
theorem command_confined_iff (media : Media) (buffer : ℕ → UInt8) (length : ℕ) (b : Channels) :
    (Confined b (target buffer length) (command media buffer length b).2.log ↔
        NamesDirect b (target buffer length)) ∧
      Framed b (command media buffer length b).2 := by
  refine ⟨⟨fun hconfined sec i hsec hfind => ?_, fun hnames => ?_⟩,
    framed_command media buffer length b⟩
  · rcases result_command media buffer length b with ⟨-, hnone⟩ | ⟨sec', i', hsec', hfind', hassigns⟩
    · exact absurd hfind (hnone sec i hsec)
    · obtain rfl : sec = sec' := Option.some.inj (hsec.symm.trans hsec')
      obtain rfl : i = i' := Option.some.inj (hfind.symm.trans hfind')
      obtain ⟨a, rest, hlog, htouch⟩ := hassigns.begins
      rcases hconfined with hempty | ⟨sec'', n, start, hsec'', hdirect, hwithin⟩
      · rw [hlog] at hempty
        cases hempty
      · obtain rfl : sec = sec'' := Option.some.inj (hsec.symm.trans hsec'')
        have ha := hwithin a (by rw [hlog]; exact List.mem_cons_self ..)
        exact ⟨n, start, hdirect, touches_within htouch ha⟩
  · rcases result_command media buffer length b with ⟨hempty, -⟩ | ⟨sec, i, hsec, hfind, hassigns⟩
    · exact .inl hempty
    · obtain ⟨n, start, hdirect, hle, hlt⟩ := hnames sec i hsec hfind
      exact .inr ⟨sec, n, start, hsec, hdirect, hassigns.within sec n start hdirect hle hlt⟩

/-- `B-P 15 0 0` takes the secondary address of the error channel away and assigns through NULL. -/
theorem errorChannel_not_confined :
    let buffer : ℕ → UInt8 := fun n => [66, 45, 80, 32, 49, 53, 32, 48, 32, 48].getD n 0
    let media : Media := ⟨fun _ _ _ => (0, none), fun _ _ _ _ => 0, fun _ _ => none,
      fun _ _ => (0, none), fun _ _ _ => 0⟩
    ¬Confined (buffersInit 6) (target buffer 10) (command media buffer 10 (buffersInit 6)).2.log := by
  intro buffer media hconfined
  have htarget : target buffer 10 = some 15 := by decide
  have hlog : (command media buffer 10 (buffersInit 6)).2.log = [.fields 6, .null] := by decide
  rcases hconfined with hempty | ⟨sec, n, start, hsec, hdirect, -⟩
  · rw [hlog] at hempty
    cases hempty
  · rw [htarget] at hsec
    obtain rfl := Option.some.inj hsec
    exact absurd hdirect.sec_lt (by decide)

end Dos

end NoDiskEmu
