import NoDiskEmu.Buffers.Loops
import NoDiskEmu.Library.Ring
import NoDiskEmu.Library.Run

/-! Direct-access buffers, opened with `#` or `##n`. -/

namespace NoDiskEmu

/-- The byte `BUFFER_SEC_CHAIN - sec`. -/
def chainSecondary (sec : ℕ) : ℕ := (BUFFER_SEC_CHAIN + 256 - sec) % 256

namespace Channels

/-- `directbuffer_refill`; the buffers it is the callback of have a first buffer. -/
def directbufferRefill (b : Channels) (i : ℕ) : Channels :=
  let sec := (b.table.buffers i).secondary
  let b := b.setSecondary i (chainSecondary sec)
  match (b.chan i).next.or (b.chan i).first with
  | none => b
  | some j =>
    let b := b.setSecondary j sec
    b.setChan j { b.chan j with position := 0, mustflush := false }

/-- The settings that `open_buffer` makes in each buffer of a chain. -/
def openMember (b : Channels) (secondary part i : ℕ) : Channels :=
  { b with table := b.table.set i { b.table.buffers i with
      secondary := chainSecondary secondary
      sticky := true } }.setChan i
    { b.chan i with
      refill := .directbufferRefill
      cleanup := .largebufferCleanup
      read := true
      lastused := 255
      part
      write := true }

/-- The loop of `open_buffer`, and the last buffer it meets. -/
def openChain (secondary part : ℕ) : ℕ → Channels → ℕ → Channels × ℕ
  | 0, b, i => (b, i)
  | fuel + 1, b, i =>
    let b := b.openMember secondary part i
    match (b.chan i).next with
    | none => (b, i)
    | some j => openChain secondary part fuel b j

/-- The number of buffers that the name asks for: `##n` has one digit, any other name one
buffer. -/
def requested (command : List UInt8) : ℕ :=
  match command with
  | [_, 35, digit] => (digit - 48).toNat
  | _ => 1

/-- `open_buffer` for the name `command`, the command buffer up to `command_length`. -/
def openBuffer (b : Channels) (command : List UInt8) (secondary part : ℕ) : Channels :=
  match command with
  | [_, 35, digit] =>
    let count := (digit - 48).toNat
    if count = 0 then b
    else match b.allocLinkedBuffers count with
      | (none, b) => b
      | (some start, b) =>
        let (b, prev) := openChain secondary part count b start
        let b := b.setChan prev { b.chan prev with sendeoi := true }
        match (b.chan prev).first with
        | none => b
        | some first => b.setSecondary first secondary
  | _ => match b.allocBuffer with
    | (none, b) => b
    | (some i, b) =>
      { b with table := b.table.set i { b.table.buffers i with
          secondary
          sticky := true } }.setChan i
        { b.chan i with
          read := true
          position := 1
          lastused := 255
          sendeoi := true
          size := 1
          part
          refill := .directbufferRefill
          first := some i
          write := true }

/-- The fields of a buffer that the bus loops see. -/
def cursor (b : Channels) (i : ℕ) : Cursor :=
  let c := b.chan i
  ⟨(b.table.buffers i).data, c.position, c.lastused, c.recordlen, c.mustflush, c.read, c.write,
    c.sendeoi⟩

def storeCursor (b : Channels) (i : ℕ) (c : Cursor) : Channels :=
  { b with table := b.table.set i { b.table.buffers i with data := c.data } }.setChan i
    { b.chan i with
      position := c.position
      lastused := c.lastused
      recordlen := c.recordlen
      mustflush := c.mustflush
      read := c.read
      write := c.write
      sendeoi := c.sendeoi }

/-- A byte that the listen loop stores. -/
def received (b : Channels) (i : ℕ) (x : UInt8) : Channels :=
  let b := b.storeCursor i ((b.cursor i).put x)
  { b with table := b.table.markBufferDirty i }

/-- The channel of a direct-access buffer on the secondary address `sec`. -/
def directChannel (sec : ℕ) : Channel (Channels × ℕ) where
  cursor s := s.1.cursor s.2
  store s c := (s.1.storeCursor s.2 c, s.2)
  markDirty s := ({ s.1 with table := s.1.table.markBufferDirty s.2 }, s.2)
  refill s := (false, s.1.directbufferRefill s.2, s.2)
  find s := (s.1.table.findBuffer sec).map fun i => (s.1, i)
  command := sec = 15
  direct s := (s.1.chan s.2).refill = .directbufferRefill

end Channels

/-- An assignment to a field of a buffer or to its data; `null` is one through a pointer that is
NULL. -/
inductive Access
  | fields (i : ℕ)
  | bytes (i n : ℕ)
  | null
deriving DecidableEq

/-- The buffers with the assignments that a command has made so far. -/
structure Traced where
  chans : Channels
  log : List Access

namespace Traced

/-- An assignment to fields of the buffer that a pointer points to. -/
def assign (t : Traced) (buf : Option ℕ) (f : ℕ → Channels → Channels) : Traced :=
  match buf with
  | none => { t with log := t.log ++ [.null] }
  | some i => ⟨f i t.chans, t.log ++ [.fields i]⟩

/-- The loop of block-position: `count` steps along the chain, which wraps at its end. -/
def walkChain (b : Channels) : ℕ → Option ℕ → Option ℕ
  | 0, buf => buf
  | count + 1, buf =>
    match buf with
    | none => none
    | some i => walkChain b count ((b.chan i).next.or (b.chan i).first)

/-- Block-position of `parse_block`; `false` is for ERROR_NO_CHANNEL. -/
def blockPosition (t : Traced) (channel lo hi : ℕ) : Bool × Traced :=
  match t.chans.table.findBuffer channel with
  | none => (false, t)
  | some i =>
    if (t.chans.chan i).size ≠ 1 then
      let t := t.assign (some i) fun i b => b.setSecondary i (chainSecondary channel)
      let buf := walkChain t.chans hi (t.chans.chan i).first
      (true, t.assign buf fun i b =>
        let b := b.setSecondary i channel
        b.setChan i { b.chan i with mustflush := false, position := lo })
    else
      (true, t.assign (some i) fun i b => b.setChan i { b.chan i with position := lo })

end Traced

/-- What the host does with a direct-access channel. -/
inductive DirectCall
  | listen (bytes : List (UInt8 × Bool))
  | talk (n : ℕ)
  | position (lo hi : UInt8)

namespace Channels

open Library Library.Run

/-- A call on the secondary address `sec`, with the bytes that the host receives; `none` is a crash. -/
def directStep (sec : ℕ) (b : Channels) : DirectCall → Option (List UInt8) × Channels
  | .listen xs =>
    match (directChannel sec).listenLoop (b, 0) xs with
    | .more s => (some [], s.1)
    | .stop s => (some [], s.1)
    | .null => (none, b)
  | .talk n =>
    match (directChannel sec).talkLoop (b, 0) n with
    | (xs, .more s) => (some (xs.map Prod.fst), s.1)
    | (xs, .stop s) => (some (xs.map Prod.fst), s.1)
    | (_, .null) => (none, b)
  | .position lo hi =>
    (some [], ((Traced.mk b []).blockPosition sec lo.toNat hi.toNat).2.chans)

/-- A call on an array of `256 * n` bytes. -/
def ringStep (n : ℕ) (r : Library.Ring UInt8) : DirectCall → Option (List UInt8) × Library.Ring UInt8
  | .listen xs => (some [], r.putAll (xs.map Prod.fst))
  | .talk m => (some (r.getAll m).1, (r.getAll m).2)
  | .position lo hi => (some [], r.seek (hi.toNat % n * 256 + lo.toNat))

/-- The data of a chain as one array, with the cursor in its first buffer. -/
def ring (b : Channels) (n start : ℕ) : Library.Ring UInt8 :=
  ⟨256 * n, fun i => (b.table.buffers (start + i / 256)).data (i % 256), (b.chan start).position⟩

/-- Exactly one buffer of the chain has the secondary address of the host. -/
def Labelled (b : Channels) (sec n start : ℕ) : Prop :=
  ∃ k < n, (b.table.buffers (start + k)).secondary = sec ∧
    ∀ j < n, j ≠ k → (b.table.buffers (start + j)).secondary = BUFFER_SEC_CHAIN - sec

/-- The buffer of the host is not waiting to be switched, or the call can do without: it starts to
write at position 0, it reads from a single buffer, or it sets the position. -/
def DirectFits (sec : ℕ) (b : Channels) (call : DirectCall) : Prop :=
  ∀ i, b.table.findBuffer sec = some i → (b.chan i).mustflush = true →
    match call with
    | .listen xs => xs = [] ∨ (b.chan i).position = 0
    | .talk n => n = 0 ∨ (b.chan i).size = 1
    | .position _ _ => True

/-- Buffer `j` of a chain of `n` buffers from `start`. -/
structure Member (b : Channels) (n start j : ℕ) : Prop where
  allocated : (b.table.buffers (start + j)).allocated = true
  size : (b.chan (start + j)).size = n
  first : (b.chan (start + j)).first = some start
  next : (b.chan (start + j)).next = if j + 1 < n then some (start + j + 1) else none
  refill : (b.chan (start + j)).refill = .directbufferRefill
  lastused : (b.chan (start + j)).lastused = 255
  recordlen : (b.chan (start + j)).recordlen = 0
  read : (b.chan (start + j)).read = true
  write : (b.chan (start + j)).write = true
  position_lt : (b.chan (start + j)).position < 256

/-- A chain on the secondary address `sec`, whose buffer `k` is the one the host sees. -/
structure Opened (b : Channels) (sec n start k : ℕ) : Prop where
  room : start + n ≤ b.count
  active_lt : k < n
  member : ∀ j < n, b.Member n start j
  secondary : ∀ j < n,
    (b.table.buffers (start + j)).secondary = if j = k then sec else BUFFER_SEC_CHAIN - sec
  others : ∀ i ≤ b.count, (∀ j < n, i ≠ start + j) → (b.table.buffers i).allocated = true →
    (b.table.buffers i).secondary ≠ sec

variable {b b' : Channels} {sec n start k : ℕ}

theorem chainSecondary_of_lt (h : sec < 15) : chainSecondary sec = BUFFER_SEC_CHAIN - sec := by
  simp only [chainSecondary, BUFFER_SEC_CHAIN]
  omega

theorem Opened.labelled (h : b.Opened sec n start k) : b.Labelled sec n start :=
  ⟨k, h.active_lt, by rw [h.secondary k h.active_lt, if_pos rfl],
    fun j hj hne => by rw [h.secondary j hj, if_neg hne]⟩

/-- The host's secondary address leads to the buffer of the chain that has it. -/
theorem Opened.find (h : b.Opened sec n start k) (hsec : sec < 15) :
    b.table.findBuffer sec = some (start + k) := by
  have hroom : start + n ≤ b.table.count := h.room
  refine Table.findBuffer_unique (by have := h.active_lt; omega) (h.member k h.active_lt).allocated
    (by rw [h.secondary k h.active_lt, if_pos rfl]) (fun i hi hallocated hfound => ?_)
  by_cases hin : ∀ j < n, i ≠ start + j
  · exact absurd hfound (h.others i hi hin hallocated)
  · push Not at hin
    obtain ⟨j, hj, rfl⟩ := hin
    by_contra hne
    rw [h.secondary j hj, if_neg (by omega)] at hfound
    simp only [BUFFER_SEC_CHAIN] at hfound
    omega

/-- A buffer of the chain stays one when its cursor moves. -/
theorem Member.moved {j : ℕ} (h : b.Member n start j) {position : ℕ} {mustflush sendeoi : Bool}
    (hallocated : (b'.table.buffers (start + j)).allocated =
      (b.table.buffers (start + j)).allocated)
    (hchan : b'.chan (start + j) = { b.chan (start + j) with position, mustflush, sendeoi })
    (hlt : position < 256) : b'.Member n start j := by
  constructor
  · rw [hallocated, h.allocated]
  all_goals rw [hchan]
  · exact h.size
  · exact h.first
  · exact h.next
  · exact h.refill
  · exact h.lastused
  · exact h.recordlen
  · exact h.read
  · exact h.write
  · exact hlt

/-- A chain stays one when the cursors of its buffers move and the secondary address of the host
goes from one of its buffers to another. -/
theorem Opened.moved (h : b.Opened sec n start k) {k' : ℕ} (hk : k' < n)
    (hcount : b'.count = b.count)
    (houtside : ∀ i, (∀ j < n, i ≠ start + j) →
      (b'.table.buffers i).allocated = (b.table.buffers i).allocated ∧
        (b'.table.buffers i).secondary = (b.table.buffers i).secondary)
    (hinside : ∀ j < n, ∃ position mustflush sendeoi, position < 256 ∧
      b'.chan (start + j) = { b.chan (start + j) with position, mustflush, sendeoi } ∧
      (b'.table.buffers (start + j)).allocated = (b.table.buffers (start + j)).allocated ∧
      (b'.table.buffers (start + j)).secondary = if j = k' then sec else BUFFER_SEC_CHAIN - sec) :
    b'.Opened sec n start k' := by
  refine ⟨hcount ▸ h.room, hk, fun j hj => ?_, fun j hj => ?_, fun i hi hout => ?_⟩
  · obtain ⟨position, mustflush, sendeoi, hlt, hchan, hallocated, -⟩ := hinside j hj
    exact (h.member j hj).moved hallocated hchan hlt
  · obtain ⟨-, -, -, -, -, -, hsecondary⟩ := hinside j hj
    exact hsecondary
  · rw [(houtside i hout).1, (houtside i hout).2]
    exact h.others i (hcount ▸ hi) hout

/-- The buffer after buffer `j`, or the first one. -/
theorem next_or_first {j : ℕ} (hj : j < n) (hfirst : (b.chan (start + j)).first = some start)
    (hnext : (b.chan (start + j)).next = if j + 1 < n then some (start + j + 1) else none) :
    (b.chan (start + j)).next.or (b.chan (start + j)).first = some (start + (j + 1) % n) := by
  rw [hnext, hfirst]
  by_cases hlast : j + 1 < n
  · rw [if_pos hlast, Nat.mod_eq_of_lt hlast]
    rfl
  · rw [if_neg hlast, show j + 1 = n by omega, Nat.mod_self]
    rfl

theorem Opened.next_or_first (h : b.Opened sec n start k) {j : ℕ} (hj : j < n) :
    (b.chan (start + j)).next.or (b.chan (start + j)).first = some (start + (j + 1) % n) :=
  Channels.next_or_first hj (h.member j hj).first (h.member j hj).next

/-- The secondary address of the host goes from one buffer to another, where the cursor is put. -/
def switched (b : Channels) (sec i j position : ℕ) : Channels :=
  ((b.setSecondary i (BUFFER_SEC_CHAIN - sec)).setSecondary j sec).setChan j
    { b.chan j with position, mustflush := false }

theorem Opened.switched (h : b.Opened sec n start k) {k' position : ℕ} (hk' : k' < n)
    (hlt : position < 256) : (b.switched sec (start + k) (start + k') position).Opened sec n start k' := by
  refine h.moved hk' rfl (fun i hout => ?_) (fun j hj => ?_)
  · rw [Channels.switched, setChan_table, setSecondary_of_ne _ _ (hout k' hk'),
      setSecondary_of_ne _ _ (hout k h.active_lt)]
    exact ⟨rfl, rfl⟩
  · rw [Channels.switched]
    by_cases hjk' : j = k'
    · subst hjk'
      exact ⟨position, false, (b.chan (start + j)).sendeoi, hlt, by simp, by simp, by simp⟩
    · refine ⟨(b.chan (start + j)).position, (b.chan (start + j)).mustflush,
        (b.chan (start + j)).sendeoi, (h.member j hj).position_lt, ?_, by simp, ?_⟩
      · rw [setChan_of_ne _ _ (by omega), setSecondary_chan, setSecondary_chan]
      · rw [setChan_table, setSecondary_of_ne _ _ (by omega), if_neg hjk']
        by_cases hjk : j = k
        · rw [hjk, setSecondary_self]
        · rw [setSecondary_of_ne _ _ (by omega), h.secondary j hj, if_neg hjk]

theorem switched_chan (b : Channels) (sec i j position : ℕ) :
    (b.switched sec i j position).chan j = { b.chan j with position, mustflush := false } :=
  setChan_self ..

theorem switched_data (b : Channels) (sec i j position m : ℕ) :
    ((b.switched sec i j position).table.buffers m).data = (b.table.buffers m).data := by
  simp [switched]

/-- A refill goes to the start of the next buffer. -/
theorem directbufferRefill_eq (h : b.Opened sec n start k) (hsec : sec < 15) :
    b.directbufferRefill (start + k) = b.switched sec (start + k) (start + (k + 1) % n) 0 := by
  have hnext : ((b.setSecondary (start + k) (BUFFER_SEC_CHAIN - sec)).chan (start + k)).next.or
      ((b.setSecondary (start + k) (BUFFER_SEC_CHAIN - sec)).chan (start + k)).first =
        some (start + (k + 1) % n) := h.next_or_first h.active_lt
  have hown : (b.table.buffers (start + k)).secondary = sec := by
    rw [h.secondary k h.active_lt, if_pos rfl]
  simp only [directbufferRefill, hown, chainSecondary_of_lt hsec, hnext]
  rfl

theorem Opened.refill (h : b.Opened sec n start k) (hsec : sec < 15) :
    let b' := b.directbufferRefill (start + k)
    b'.Opened sec n start ((k + 1) % n) ∧
      (b'.chan (start + (k + 1) % n)).position = 0 ∧
      (b'.chan (start + (k + 1) % n)).mustflush = false ∧
      ∀ i, (b'.table.buffers i).data = (b.table.buffers i).data := by
  have hk := h.active_lt
  rw [directbufferRefill_eq h hsec]
  refine ⟨h.switched (Nat.mod_lt _ (by omega)) (by decide), ?_, ?_, switched_data b _ _ _ _⟩
  · rw [switched_chan]
  · rw [switched_chan]

/-- A switch to the next buffer is due. -/
def Due (b : Channels) (i : ℕ) : Prop := (b.chan i).mustflush = true ∧ (b.chan i).position = 0

instance (b : Channels) (i : ℕ) : Decidable (b.Due i) := inferInstanceAs (Decidable (_ ∧ _))

/-- The chain holds the array `r`, with its cursor in buffer `k` or, if a switch is due, at the start
of the next one. -/
structure Shows (b : Channels) (n start k : ℕ) (r : Library.Ring UInt8) : Prop where
  size : r.size = 256 * n
  cells : ∀ j < n, ∀ p < 256, r.cells (256 * j + p) = (b.table.buffers (start + j)).data p
  cursor : r.cursor = if b.Due (start + k) then 256 * ((k + 1) % n)
    else 256 * k + (b.chan (start + k)).position

variable {r : Library.Ring UInt8}

theorem Shows.refill (h : b.Opened sec n start k) (hsec : sec < 15) (hr : b.Shows n start k r)
    (hdue : b.Due (start + k)) :
    (b.directbufferRefill (start + k)).Shows n start ((k + 1) % n) r := by
  obtain ⟨-, hposition, hmustflush, hdata⟩ := h.refill hsec
  refine ⟨hr.size, fun j hj p hp => ?_, ?_⟩
  · rw [hdata, hr.cells j hj p hp]
  · rw [hr.cursor, if_pos hdue, if_neg (by simp [Due, hmustflush]), hposition]
    rfl

theorem received_buffers (b : Channels) (i : ℕ) (x : UInt8) (j : ℕ) :
    ∃ dirty, (b.received i x).table.buffers j = { b.table.buffers j with
      data := if j = i then Function.update (b.table.buffers i).data (b.chan i).position x
        else (b.table.buffers j).data
      dirty } := by
  obtain ⟨dirty, hdirty⟩ := Table.markBufferDirty_buffers
    (b.storeCursor i ((b.cursor i).put x)).table i j
  refine ⟨dirty, hdirty.trans ?_⟩
  by_cases h : j = i
  · subst h
    rw [if_pos rfl, storeCursor, setChan_table, Table.set_self]
    rfl
  · rw [if_neg h, storeCursor, setChan_table, Table.set_of_ne _ _ h]

theorem received_chan (b : Channels) (i : ℕ) (x : UInt8) :
    (b.received i x).chan i = { b.chan i with
      position := ((b.chan i).position + 1) % 256
      lastused := if (b.chan i).lastused < (b.chan i).position then (b.chan i).position
        else (b.chan i).lastused
      mustflush := (b.chan i).mustflush || decide (((b.chan i).position + 1) % 256 = 0) } :=
  setChan_self ..

theorem received_chan_of_ne (b : Channels) {i j : ℕ} (x : UInt8) (h : j ≠ i) :
    (b.received i x).chan j = b.chan j :=
  setChan_of_ne _ _ h

theorem received_count (b : Channels) (i : ℕ) (x : UInt8) : (b.received i x).count = b.count :=
  Table.markBufferDirty_count ..

theorem Opened.received (h : b.Opened sec n start k) (x : UInt8) :
    (b.received (start + k) x).Opened sec n start k := by
  refine h.moved h.active_lt (received_count ..) (fun i hout => ?_) (fun j hj => ?_)
  · obtain ⟨dirty, hbuffer⟩ := received_buffers b (start + k) x i
    rw [hbuffer]
    exact ⟨rfl, rfl⟩
  · obtain ⟨dirty, hbuffer⟩ := received_buffers b (start + k) x (start + j)
    have hlt := (h.member j hj).position_lt
    rw [hbuffer]
    by_cases hjk : j = k
    · subst hjk
      refine ⟨((b.chan (start + j)).position + 1) % 256, (b.chan (start + j)).mustflush ||
        decide (((b.chan (start + j)).position + 1) % 256 = 0), (b.chan (start + j)).sendeoi,
        Nat.mod_lt _ (by decide), ?_, rfl, h.secondary j hj⟩
      rw [received_chan, if_neg (by rw [(h.member j hj).lastused]; omega)]
    · exact ⟨(b.chan (start + j)).position, (b.chan (start + j)).mustflush,
        (b.chan (start + j)).sendeoi, hlt, received_chan_of_ne _ _ (by omega), rfl,
        h.secondary j hj⟩

/-- The cell after the end of buffer `k` is the first one of the next buffer. -/
theorem wrap_eq (hk : k < n) {p : ℕ} (hp : p < 256) :
    (256 * k + p + 1) % (256 * n) = if p + 1 = 256 then 256 * ((k + 1) % n) else 256 * k + p + 1 := by
  split
  · next hlast =>
    rw [show 256 * k + p + 1 = 256 * (k + 1) by omega, Nat.mul_mod_mul_left]
  · next hlast => exact Nat.mod_eq_of_lt (by omega)

theorem Shows.received (h : b.Opened sec n start k) (hr : b.Shows n start k r)
    (hm : (b.chan (start + k)).mustflush = false) (x : UInt8) :
    (b.received (start + k) x).Shows n start k (r.put x) := by
  have hk := h.active_lt
  have hlt := (h.member k hk).position_lt
  have hcursor : r.cursor = 256 * k + (b.chan (start + k)).position := by
    rw [hr.cursor, if_neg (by simp [Due, hm])]
  refine ⟨hr.size, fun j hj p hp => ?_, ?_⟩
  · obtain ⟨dirty, hbuffer⟩ := received_buffers b (start + k) x (start + j)
    rw [hbuffer, Ring.put, hcursor]
    dsimp only
    by_cases hjk : j = k
    · subst hjk
      by_cases hpp : p = (b.chan (start + j)).position
      · rw [hpp, Function.update_self, if_pos rfl, Function.update_self]
      · rw [Function.update_of_ne (by omega), if_pos rfl, Function.update_of_ne hpp,
          hr.cells j hj p hp]
    · rw [Function.update_of_ne (by omega), if_neg (by omega), hr.cells j hj p hp]
  · have hchan := received_chan b (start + k) x
    rw [Ring.put_cursor, Ring.next, hcursor, hr.size, wrap_eq hk hlt]
    by_cases hlast : (b.chan (start + k)).position + 1 = 256
    · rw [if_pos hlast, if_pos (by simp [Due, hchan, hlast])]
    · have hmod : ((b.chan (start + k)).position + 1) % 256 = (b.chan (start + k)).position + 1 :=
        Nat.mod_eq_of_lt (by omega)
      rw [if_neg hlast, if_neg (by simp [Due, hchan, hmod]), hchan]
      dsimp only
      rw [hmod, Nat.add_assoc]

theorem storeByte_received (h : b.Opened sec n start k) (x : UInt8) (eoi : Bool) :
    (directChannel sec).storeByte (b, start + k) x eoi =
      .more (b.received (start + k) x, start + k) := by
  have hrecord : ¬(((b.received (start + k) x).chan (start + k)).recordlen ≠ 0 ∧ eoi = true) := by
    rw [received_chan]
    exact fun hboth => hboth.1 (h.member k h.active_lt).recordlen
  rw [Channel.storeByte]
  exact if_neg hrecord

/-- The refill of a loop leaves the loop in the next buffer. -/
theorem refillFind_opened (h : b.Opened sec n start k) (hsec : sec < 15) :
    (directChannel sec).refillFind (b, start + k) =
      .more (b.directbufferRefill (start + k), start + (k + 1) % n) := by
  have hfind : (directChannel sec).find ((directChannel sec).refill (b, start + k)).2 =
      some (b.directbufferRefill (start + k), start + (k + 1) % n) := by
    show ((b.directbufferRefill (start + k)).table.findBuffer sec).map _ = _
    rw [(h.refill hsec).1.find hsec]
    rfl
  rw [Channel.refillFind, hfind]
  rfl

/-- A buffer that waits to be switched does so from its end. -/
def Fresh (b : Channels) (i : ℕ) : Prop :=
  (b.chan i).mustflush = true → (b.chan i).position = 0

theorem fresh_received {i : ℕ} (hm : (b.chan i).mustflush = false) (x : UInt8) :
    (b.received i x).Fresh i := by
  simp [Fresh, received_chan, hm]

theorem listenByte_opened (h : b.Opened sec n start k) (hsec : sec < 15) (x : UInt8) (eoi : Bool) :
    ∃ b' k', (directChannel sec).listenByte (b, start + k) x eoi = .more (b', start + k') ∧
      b'.Opened sec n start k' ∧ ∀ r, b.Shows n start k r → b.Fresh (start + k) →
        b'.Shows n start k' (r.put x) ∧ b'.Fresh (start + k') := by
  cases hm : (b.chan (start + k)).mustflush with
  | false =>
    refine ⟨b.received (start + k) x, k, ?_, h.received x, fun r hr _ => ⟨hr.received h hm x,
      fresh_received hm x⟩⟩
    have hflush : ¬((directChannel sec).cursor (b, start + k)).mustflush = true :=
      Bool.eq_false_iff.mp hm
    rw [Channel.listenByte, if_neg hflush, storeByte_received h]
  | true =>
    obtain ⟨hopen, -, hm', -⟩ := h.refill hsec
    refine ⟨(b.directbufferRefill (start + k)).received (start + (k + 1) % n) x, (k + 1) % n, ?_,
      hopen.received x, fun r hr hfresh => ⟨?_, fresh_received hm' x⟩⟩
    · have hflush : ((directChannel sec).cursor (b, start + k)).mustflush = true := hm
      rw [Channel.listenByte, if_pos hflush, refillFind_opened h hsec]
      exact storeByte_received hopen x eoi
    · exact (hr.refill h hsec ⟨hm, hfresh hm⟩).received hopen hm' x

theorem listenBytes_opened (h : b.Opened sec n start k) (hsec : sec < 15)
    (xs : List (UInt8 × Bool)) :
    ∃ b' k', (directChannel sec).listenBytes (b, start + k) xs = .more (b', start + k') ∧
      b'.Opened sec n start k' ∧ ∀ r, b.Shows n start k r → xs = [] ∨ b.Fresh (start + k) →
        b'.Shows n start k' (r.putAll (xs.map Prod.fst)) := by
  induction xs generalizing b k with
  | nil => exact ⟨b, k, rfl, h, fun r hr _ => hr⟩
  | cons x xs ih =>
    obtain ⟨b₁, k₁, heq₁, h₁, hshows₁⟩ := listenByte_opened h hsec x.1 x.2
    obtain ⟨b₂, k₂, heq₂, h₂, hshows₂⟩ := ih h₁
    refine ⟨b₂, k₂, ?_, h₂, fun r hr hfresh => ?_⟩
    · rw [Channel.listenBytes, heq₁]
      exact heq₂
    · obtain ⟨hr₁, hfresh₁⟩ := hshows₁ r hr (hfresh.resolve_left (List.cons_ne_nil x xs))
      exact hshows₂ _ hr₁ (.inr hfresh₁)

/-- A byte that the talk loop has sent. -/
def advanced (b : Channels) (i : ℕ) : Channels := b.storeCursor i (b.cursor i).sent

theorem advanced_eq (b : Channels) (i : ℕ) :
    b.advanced i = b.setChan i { b.chan i with position := ((b.chan i).position + 1) % 256 } := by
  have hsame : b.table.set i { b.table.buffers i with data := (b.cursor i).sent.data } = b.table :=
    congrArg (fun buffers => { b.table with buffers }) (Function.update_eq_self i b.table.buffers)
  rw [advanced, storeCursor, hsame]
  rfl

theorem Opened.advanced (h : b.Opened sec n start k) :
    (b.advanced (start + k)).Opened sec n start k := by
  rw [advanced_eq]
  refine h.moved h.active_lt rfl (fun i _ => ⟨rfl, rfl⟩) (fun j hj => ?_)
  by_cases hjk : j = k
  · subst hjk
    exact ⟨((b.chan (start + j)).position + 1) % 256, (b.chan (start + j)).mustflush,
      (b.chan (start + j)).sendeoi, Nat.mod_lt _ (by decide), setChan_self .., rfl,
      h.secondary j hj⟩
  · exact ⟨(b.chan (start + j)).position, (b.chan (start + j)).mustflush,
      (b.chan (start + j)).sendeoi, (h.member j hj).position_lt, setChan_of_ne _ _ (by omega), rfl,
      h.secondary j hj⟩

/-- Reading does not wait for a switch that is due, which makes no difference in a single buffer. -/
theorem afterByte_opened (h : b.Opened sec n start k) (hsec : sec < 15) :
    ∃ b' k', (directChannel sec).afterByte (b, start + k) = .more (b', start + k') ∧
      b'.Opened sec n start k' ∧ ∀ r, b.Shows n start k r →
        ((b.chan (start + k)).mustflush = true → n = 1) →
        b'.Shows n start k' { r with cursor := r.next } ∧
          r.cells r.cursor = (b.table.buffers (start + k)).data (b.chan (start + k)).position ∧
          ((b'.chan (start + k')).mustflush = true → n = 1) := by
  have hk := h.active_lt
  have hlt := (h.member k hk).position_lt
  have hcursor : ∀ r, b.Shows n start k r → ((b.chan (start + k)).mustflush = true → n = 1) →
      r.cursor = 256 * k + (b.chan (start + k)).position := by
    intro r hr hsingle
    rw [hr.cursor]
    split
    · next hdue =>
      have hn := hsingle hdue.1
      rw [hn, Nat.mod_one, hdue.2, show k = 0 by omega]
    · rfl
  have hcell : ∀ r, b.Shows n start k r → ((b.chan (start + k)).mustflush = true → n = 1) →
      r.cells r.cursor = (b.table.buffers (start + k)).data (b.chan (start + k)).position := by
    intro r hr hsingle
    rw [hcursor r hr hsingle, hr.cells k hk _ hlt]
  have hlast := (h.member k hk).lastused
  by_cases hmore : (b.chan (start + k)).position < 255
  · have hmod : ((b.chan (start + k)).position + 1) % 256 = (b.chan (start + k)).position + 1 :=
      Nat.mod_eq_of_lt (by omega)
    have hchan : (b.advanced (start + k)).chan (start + k) =
        { b.chan (start + k) with position := (b.chan (start + k)).position + 1 } := by
      rw [advanced_eq, setChan_self, hmod]
    refine ⟨b.advanced (start + k), k, ?_, h.advanced, fun r hr hsingle =>
      ⟨⟨hr.size, fun j hj p hp => ?_, ?_⟩, hcell r hr hsingle, fun hm => hsingle ?_⟩⟩
    · have hpos : ((directChannel sec).cursor (b, start + k)).position <
          ((directChannel sec).cursor (b, start + k)).lastused := by
        show (b.chan (start + k)).position < (b.chan (start + k)).lastused
        rwa [hlast]
      rw [Channel.afterByte]
      exact if_pos hpos
    · rw [advanced_eq]
      exact hr.cells j hj p hp
    · show r.next = _
      rw [Ring.next, hcursor r hr hsingle, hr.size, wrap_eq hk hlt, if_neg (by omega),
        if_neg (by simp [Due, hchan]), hchan]
      exact Nat.add_assoc ..
    · rwa [hchan] at hm
  · obtain ⟨hopen, hposition, hmustflush, hdata⟩ := h.advanced.refill hsec
    refine ⟨(b.advanced (start + k)).directbufferRefill (start + k), (k + 1) % n, ?_, hopen,
      fun r hr hsingle => ⟨⟨hr.size, fun j hj p hp => ?_, ?_⟩, hcell r hr hsingle, fun hm => ?_⟩⟩
    · have hpos : ¬((directChannel sec).cursor (b, start + k)).position <
          ((directChannel sec).cursor (b, start + k)).lastused := by
        show ¬(b.chan (start + k)).position < (b.chan (start + k)).lastused
        rwa [hlast]
      have hdirect : (directChannel sec).direct (b.advanced (start + k), start + k) = true :=
        decide_eq_true (h.advanced.member k hk).refill
      rw [Channel.afterByte]
      refine (if_neg hpos).trans ((if_neg fun hstop => ?_).trans (refillFind_opened h.advanced hsec))
      exact hstop.2.2.2 hdirect
    · rw [hdata, advanced_eq]
      exact hr.cells j hj p hp
    · show r.next = _
      rw [Ring.next, hcursor r hr hsingle, hr.size, wrap_eq hk hlt, if_pos (by omega),
        if_neg (by simp [Due, hmustflush]), hposition]
      rfl
    · rw [hmustflush] at hm
      cases hm

theorem talkBytes_opened (h : b.Opened sec n start k) (hsec : sec < 15) (m : ℕ) :
    ∃ xs b' k', (directChannel sec).talkBytes (b, start + k) m = (xs, .more (b', start + k')) ∧
      b'.Opened sec n start k' ∧ ∀ r, b.Shows n start k r →
        m = 0 ∨ ((b.chan (start + k)).mustflush = true → n = 1) →
        xs.map Prod.fst = (r.getAll m).1 ∧ b'.Shows n start k' (r.getAll m).2 := by
  induction m generalizing b k with
  | zero => exact ⟨[], b, k, rfl, h, fun r hr _ => ⟨rfl, hr⟩⟩
  | succ m ih =>
    obtain ⟨b₁, k₁, heq₁, h₁, hshows₁⟩ := afterByte_opened h hsec
    obtain ⟨xs, b₂, k₂, heq₂, h₂, hshows₂⟩ := ih h₁
    have hread : ((directChannel sec).cursor (b, start + k)).read = true :=
      (h.member k h.active_lt).read
    refine ⟨((directChannel sec).cursor (b, start + k)).out :: xs, b₂, k₂, ?_, h₂,
      fun r hr hsingle => ?_⟩
    · rw [Channel.talkBytes, if_pos hread, heq₁]
      dsimp only
      rw [heq₂]
    · obtain ⟨hr₁, hcell, hsingle₁⟩ := hshows₁ r hr (hsingle.resolve_left (Nat.succ_ne_zero m))
      obtain ⟨hxs, hr₂⟩ := hshows₂ _ hr₁ (.inr hsingle₁)
      refine ⟨?_, hr₂⟩
      rw [Ring.getAll, hcell, List.map_cons, hxs]
      rfl

theorem walkChain_eq (hfirst : ∀ j < n, (b.chan (start + j)).first = some start)
    (hnext : ∀ j < n, (b.chan (start + j)).next = if j + 1 < n then some (start + j + 1) else none)
    (count : ℕ) {j : ℕ} (hj : j < n) :
    Traced.walkChain b count (some (start + j)) = some (start + (j + count) % n) := by
  induction count generalizing j with
  | zero => rw [Traced.walkChain, Nat.add_zero, Nat.mod_eq_of_lt hj]
  | succ count ih =>
    rw [Traced.walkChain, next_or_first hj (hfirst j hj) (hnext j hj),
      ih (Nat.mod_lt _ (by omega)), Nat.mod_add_mod, show j + 1 + count = j + (count + 1) by omega]

theorem blockPosition_single (h : b.Opened sec 1 start k) (hsec : sec < 15) (lo hi : ℕ) :
    ((Traced.mk b []).blockPosition sec lo hi).2.chans =
      b.setChan (start + k) { b.chan (start + k) with position := lo } := by
  rw [Traced.blockPosition, h.find hsec]
  dsimp only
  rw [if_neg (not_not.mpr (h.member k h.active_lt).size)]
  rfl

theorem blockPosition_chain (h : b.Opened sec n start k) (hsec : sec < 15) (hn : n ≠ 1)
    (lo hi : ℕ) :
    ((Traced.mk b []).blockPosition sec lo hi).2.chans =
      b.switched sec (start + k) (start + hi % n) lo := by
  have hk := h.active_lt
  have hwalk : Traced.walkChain (b.setSecondary (start + k) (BUFFER_SEC_CHAIN - sec)) hi
      (b.chan (start + k)).first = some (start + hi % n) := by
    rw [(h.member k hk).first]
    have hstart := walkChain_eq
      (b := b.setSecondary (start + k) (BUFFER_SEC_CHAIN - sec))
      (fun j hj => (h.member j hj).first) (fun j hj => (h.member j hj).next) hi (show 0 < n by omega)
    rwa [Nat.add_zero, Nat.zero_add] at hstart
  rw [Traced.blockPosition, h.find hsec]
  dsimp only
  rw [if_pos (by rwa [(h.member k hk).size])]
  simp only [Traced.assign, setSecondary_chan, chainSecondary_of_lt hsec, hwalk]
  rfl

/-- Block-position puts the cursor where the array has it, whatever was due before. -/
theorem blockPosition_opened (h : b.Opened sec n start k) (hsec : sec < 15) {lo : ℕ} (hlo : lo < 256)
    (hi : ℕ) :
    ∃ k', ((Traced.mk b []).blockPosition sec lo hi).2.chans.Opened sec n start k' ∧
      ∀ r, b.Shows n start k r → ((Traced.mk b []).blockPosition sec lo hi).2.chans.Shows n start k'
        (r.seek (hi % n * 256 + lo)) := by
  have hk := h.active_lt
  by_cases hn : n = 1
  · subst hn
    refine ⟨k, ?_, fun r hr => ?_⟩
    · rw [blockPosition_single h hsec]
      refine h.moved hk rfl (fun _ _ => ⟨rfl, rfl⟩) (fun j hj => ?_)
      have hjk : j = k := by omega
      subst hjk
      exact ⟨lo, (b.chan (start + j)).mustflush, (b.chan (start + j)).sendeoi, hlo,
        setChan_self .., rfl, h.secondary j hj⟩
    · rw [blockPosition_single h hsec]
      refine ⟨hr.size, hr.cells, ?_⟩
      show hi % 1 * 256 + lo = _
      rw [show k = 0 by omega, setChan_self, Nat.mod_one]
      dsimp only
      split
      · next hdue =>
        rw [Due, setChan_self] at hdue
        rw [Nat.mod_one]
        exact (Nat.zero_add lo).trans hdue.2
      · omega
  · have hlt : hi % n < n := Nat.mod_lt _ (by omega)
    rw [blockPosition_chain h hsec hn]
    refine ⟨hi % n, h.switched hlt hlo, fun r hr => ⟨hr.size, fun j hj p hp => ?_, ?_⟩⟩
    · rw [switched_data]
      exact hr.cells j hj p hp
    · rw [if_neg (by simp [Due, switched_chan]), switched_chan, Nat.mul_comm]
      rfl

theorem directStep_opened (h : b.Opened sec n start k) (hsec : sec < 15) (call : DirectCall) :
    ∃ k', (directStep sec b call).2.Opened sec n start k' ∧
      ∀ r, b.Shows n start k r → DirectFits sec b call →
        (directStep sec b call).1 = (ringStep n r call).1 ∧
          (directStep sec b call).2.Shows n start k' (ringStep n r call).2 := by
  have hfind : (directChannel sec).find (b, 0) = some (b, start + k) := by
    show (b.table.findBuffer sec).map _ = _
    rw [h.find hsec]
    rfl
  cases call with
  | listen xs =>
    obtain ⟨b', k', heq, hopen, hshows⟩ := listenBytes_opened h hsec xs
    have hwrite : ((directChannel sec).cursor (b, start + k)).write = true :=
      (h.member k h.active_lt).write
    have hstep : directStep sec b (.listen xs) = (some [], b') := by
      rw [directStep, Channel.listenLoop, hfind]
      dsimp only
      rw [if_pos hwrite, heq]
    rw [hstep]
    refine ⟨k', hopen, fun r hr hfits => ⟨rfl, hshows r hr ?_⟩⟩
    exact or_iff_not_imp_left.mpr fun hxs hm => (hfits _ (h.find hsec) hm).resolve_left hxs
  | talk m =>
    obtain ⟨xs, b', k', heq, hopen, hshows⟩ := talkBytes_opened h hsec m
    have hstep : directStep sec b (.talk m) = (some (xs.map Prod.fst), b') := by
      rw [directStep, Channel.talkLoop, hfind]
      dsimp only
      rw [heq]
    rw [hstep]
    refine ⟨k', hopen, fun r hr hfits => ?_⟩
    obtain ⟨hxs, hr'⟩ := hshows r hr (or_iff_not_imp_left.mpr fun hm hflush => by
      rw [← (h.member k h.active_lt).size]
      exact (hfits _ (h.find hsec) hflush).resolve_left hm)
    exact ⟨congrArg some hxs, hr'⟩
  | position lo hi =>
    obtain ⟨k', hopen, hshows⟩ := blockPosition_opened h hsec lo.toNat_lt hi.toNat
    exact ⟨k', hopen, fun r hr _ => ⟨rfl, hshows r hr⟩⟩

/-- The settings that the loop of `open_buffer` makes from buffer `k` of the chain on. -/
theorem openChain_spec (part : ℕ) (m : ℕ) (hm : 0 < m) (hkm : k + m = n)
    (hnext : ∀ j < n, (b.chan (start + j)).next = if j + 1 < n then some (start + j + 1) else none) :
    let r := openChain sec part m b (start + k)
    r.2 + 1 = start + n ∧ r.1.count = b.count ∧
      (∀ i, i < start + k ∨ start + n ≤ i →
        r.1.table.buffers i = b.table.buffers i ∧ r.1.chan i = b.chan i) ∧
      ∀ j, k ≤ j → j < n →
        r.1.table.buffers (start + j) = { b.table.buffers (start + j) with
          secondary := chainSecondary sec
          sticky := true } ∧
        r.1.chan (start + j) = { b.chan (start + j) with
          refill := .directbufferRefill
          cleanup := .largebufferCleanup
          read := true
          lastused := 255
          part
          write := true } := by
  induction m generalizing b k with
  | zero => omega
  | succ m ih =>
    have hself : (b.openMember sec part (start + k)).chan (start + k) = { b.chan (start + k) with
          refill := .directbufferRefill
          cleanup := .largebufferCleanup
          read := true
          lastused := 255
          part
          write := true } := setChan_self ..
    have hother : ∀ i, i ≠ start + k →
        (b.openMember sec part (start + k)).table.buffers i = b.table.buffers i ∧
          (b.openMember sec part (start + k)).chan i = b.chan i :=
      fun i hi => ⟨Table.set_of_ne _ _ hi, setChan_of_ne _ _ hi⟩
    have hlink : ((b.openMember sec part (start + k)).chan (start + k)).next =
        if k + 1 < n then some (start + k + 1) else none := by
      rw [hself]
      exact hnext k (by omega)
    rw [openChain]
    dsimp only
    rw [hlink]
    by_cases hlast : k + 1 < n
    · rw [if_pos hlast]
      have hrest := ih (b := b.openMember sec part (start + k)) (k := k + 1) (by omega) (by omega)
        (fun j hj => by
          by_cases hjk : j = k
          · subst hjk
            exact hlink
          · rw [(hother (start + j) (by omega)).2]
            exact hnext j hj)
      obtain ⟨hend, hcount, hout, hin⟩ := hrest
      refine ⟨hend, hcount, fun i hi => ?_, fun j hkj hj => ?_⟩
      · obtain ⟨hb, hc⟩ := hout i (by omega)
        obtain ⟨hb', hc'⟩ := hother i (by omega)
        exact ⟨hb.trans hb', hc.trans hc'⟩
      · by_cases hjk : j = k
        · subst hjk
          obtain ⟨hb, hc⟩ := hout (start + j) (by omega)
          exact ⟨hb.trans (Table.set_self ..), hc.trans hself⟩
        · obtain ⟨hb, hc⟩ := hin j (by omega) hj
          obtain ⟨hb', hc'⟩ := hother (start + j) (by omega)
          rw [hb'] at hb
          rw [hc'] at hc
          exact ⟨hb, hc⟩
    · rw [if_neg hlast]
      refine ⟨by dsimp only; omega, rfl, fun i hi => hother i (by omega), fun j hkj hj => ?_⟩
      have hjk : j = k := by omega
      subst hjk
      exact ⟨Table.set_self .., hself⟩

theorem opened_single (hfree : b.table.findBuffer sec = none) (part : ℕ) {i : ℕ} (hi : i < b.count)
    (hcount : b'.count = b.count) (hchan : b'.chan i = Chan.cleared)
    (hbuffer : b'.table.buffers i = ⟨(b.table.buffers i).data, 0, true, false, false⟩)
    (hothers : ∀ j ≠ i, b'.table.buffers j = b.table.buffers j ∧ b'.chan j = b.chan j) :
    ({ b' with table := b'.table.set i { b'.table.buffers i with
        secondary := sec
        sticky := true } }.setChan i
      { b'.chan i with
        read := true
        position := 1
        lastused := 255
        sendeoi := true
        size := 1
        part
        refill := .directbufferRefill
        first := some i
        write := true }).Opened sec 1 i 0 ∧ (b'.chan i).mustflush = false := by
  refine ⟨?_, by rw [hchan]; rfl⟩
  refine ⟨hcount ▸ hi, by decide, fun j hj => ?_, fun j hj => ?_, fun j hj hout hallocated => ?_⟩
  · obtain rfl : j = 0 := by omega
    constructor <;> simp [hchan, hbuffer, Chan.cleared]
  · obtain rfl : j = 0 := by omega
    simp
  · have hne : j ≠ i := hout 0 (by decide)
    rw [setChan_table, Table.set_of_ne _ _ hne, (hothers j hne).1] at hallocated ⊢
    exact Table.findBuffer_none hfree (le_of_le_of_eq hj hcount) hallocated

theorem opened_chain (hsec : sec < 15) (hfree : b.table.findBuffer sec = none) (part : ℕ) (hn : 0 < n)
    (hroom : start + n ≤ b.count) (hlinked : Linked b n start n b') :
    let r := openChain sec part n b' start
    let b'' := (r.1.setChan r.2 { r.1.chan r.2 with sendeoi := true }).setSecondary start sec
    b''.Opened sec n start 0 ∧ (b''.chan start).mustflush = false ∧
      (r.1.chan r.2).first = some start := by
  have hnext : ∀ j < n, (b'.chan (start + j)).next =
      if j + 1 < n then some (start + j + 1) else none :=
    fun j hj => by rw [hlinked.chan j hj]
  obtain ⟨hend, hcount, hout, hin⟩ := openChain_spec part n hn (Nat.zero_add n) hnext
  rw [Nat.add_zero] at hend hcount hout hin
  dsimp only
  generalize openChain sec part n b' start = r at hend hcount hout hin ⊢
  obtain ⟨b₁, last⟩ := r
  dsimp only at hend hcount hout hin ⊢
  have hchan : ∀ j < n, ∃ sendeoi,
      (b₁.setChan last { b₁.chan last with sendeoi := true }).chan (start + j) =
        { b₁.chan (start + j) with sendeoi } := by
    intro j hj
    by_cases hlast : start + j = last
    · rw [← hlast, setChan_self]
      exact ⟨true, rfl⟩
    · rw [setChan_of_ne _ _ hlast]
      exact ⟨_, rfl⟩
  refine ⟨⟨?_, hn, fun j hj => ?_, fun j hj => ?_, fun i hi hi' hallocated => ?_⟩, ?_, ?_⟩
  · show start + n ≤ b₁.count
    rw [hcount, hlinked.count]
    exact hroom
  · obtain ⟨hb, hc⟩ := hin j (Nat.zero_le j) hj
    rw [hlinked.buffer j hj] at hb
    rw [hlinked.chan j hj] at hc
    obtain ⟨sendeoi, hchan⟩ := hchan j hj
    rw [hc] at hchan
    constructor
    · rw [setSecondary_allocated, setChan_table, hb]
    all_goals rw [setSecondary_chan, hchan]
    all_goals simp [Chan.cleared]
  · by_cases hj0 : j = 0
    · subst hj0
      rw [if_pos rfl]
      exact setSecondary_self ..
    · rw [setSecondary_of_ne _ _ (by omega), setChan_table, (hin j (Nat.zero_le j) hj).1, if_neg hj0]
      exact chainSecondary_of_lt hsec
  · have hi0 : i ≠ start := hi' 0 hn
    have hrange : i < start ∨ start + n ≤ i := by
      by_contra hin'
      exact hi' (i - start) (by omega) (by omega)
    rw [setSecondary_of_ne _ _ hi0, setChan_table, (hout i hrange).1,
      (hlinked.others i hrange).1] at hallocated ⊢
    refine Table.findBuffer_none hfree (le_of_le_of_eq hi ?_) hallocated
    exact hcount.trans hlinked.count
  · obtain ⟨sendeoi, hchan⟩ := hchan 0 hn
    rw [(hin 0 (Nat.le_refl 0) hn).2, hlinked.chan 0 hn] at hchan
    exact congrArg Chan.mustflush hchan
  · have hfirst := (hin (n - 1) (Nat.zero_le _) (by omega)).2
    rw [show start + (n - 1) = last by omega] at hfirst
    rw [hfirst, show last = start + (n - 1) by omega, hlinked.chan (n - 1) (by omega)]

/-- `open_buffer` opens nothing, or a chain of which the host sees the first buffer. -/
theorem openBuffer_cases (command : List UInt8) (part : ℕ) (hsec : sec < 15)
    (hfree : b.table.findBuffer sec = none) :
    (b.openBuffer command sec part).table.findBuffer sec = none ∨ ∃ first,
      (b.openBuffer command sec part).Opened sec (requested command) first 0 ∧
        ((b.openBuffer command sec part).chan first).mustflush = false := by
  unfold openBuffer requested
  split
  · next x digit =>
    dsimp only
    by_cases hcount : (digit - 48).toNat = 0
    · rw [if_pos hcount]
      exact .inl hfree
    rw [if_neg hcount]
    rcases allocLinkedBuffers_cases b (Nat.pos_of_ne_zero hcount) with
      heq | ⟨first, hroom, hunused, heq⟩
    · rw [heq]
      exact .inl ((b.setError_findBuffer _ sec).trans hfree)
    · obtain ⟨hopened, hflush, hlink⟩ := opened_chain hsec hfree part (Nat.pos_of_ne_zero hcount) hroom
        (linked_foldl _ hunused)
      rw [heq]
      dsimp only at hopened hflush ⊢
      generalize openChain sec part _ _ first = r at hopened hflush hlink ⊢
      rw [setChan_self]
      dsimp only
      rw [hlink] at hopened hflush ⊢
      exact .inr ⟨first, hopened, hflush⟩
  · rcases allocBuffer_cases b with heq | ⟨i, hi, -, b', heq, hcount, hchan, hbuffer, hothers⟩
    · rw [heq]
      exact .inl ((b.setError_findBuffer _ sec).trans hfree)
    · obtain ⟨hopened, hflush⟩ := opened_single hfree part hi hcount hchan hbuffer hothers
      rw [heq]
      refine .inr ⟨i, hopened, ?_⟩
      rw [setChan_self]
      exact hflush

theorem opened_openBuffer {command : List UInt8} {part : ℕ} (hsec : sec < 15)
    (hfree : b.table.findBuffer sec = none)
    (hopen : (b.openBuffer command sec part).table.findBuffer sec = some start) :
    (b.openBuffer command sec part).Opened sec (requested command) start 0 ∧
      (b.openBuffer command sec part).Shows (requested command) start 0
        ((b.openBuffer command sec part).ring (requested command) start) := by
  rcases openBuffer_cases command part hsec hfree with hnone | ⟨first, hopened, hflush⟩
  · rw [hnone] at hopen
    cases hopen
  · have hstart : first = start := by
      rw [hopened.find hsec] at hopen
      exact Option.some.inj hopen
    subst hstart
    refine ⟨hopened, rfl, fun j hj p hp => ?_, ?_⟩
    · show (Table.buffers _ (first + (256 * j + p) / 256)).data ((256 * j + p) % 256) = _
      rw [show (256 * j + p) / 256 = j by omega, show (256 * j + p) % 256 = p by omega]
    · rw [if_neg fun hdue => ?_]
      · exact (Nat.zero_add _).symm
      · have hm := hdue.1
        rw [Nat.add_zero, hflush] at hm
        cases hm

/-- The calls on a direct-access channel act on one array of bytes with one cursor, as long as no
call meets a switch that is due and cannot do without it; the labels of the chain are right in every
state. -/
theorem directCalls_refine {command : List UInt8} {part : ℕ} (hsec : sec < 15)
    (hfree : b.table.findBuffer sec = none)
    (hopen : (b.openBuffer command sec part).table.findBuffer sec = some start)
    (calls : List DirectCall) :
    let b₀ := b.openBuffer command sec part
    let n := requested command
    Always (directStep sec) (fun b => b.Labelled sec n start) b₀ calls ∧
      (Meets (directStep sec) (DirectFits sec) b₀ calls →
        (run (directStep sec) b₀ calls).1 = (run (ringStep n) (b₀.ring n start) calls).1 ∧
          ∃ k < n, (run (directStep sec) b₀ calls).2.Shows n start k
            (run (ringStep n) (b₀.ring n start) calls).2) := by
  intro b₀ n
  obtain ⟨hopened, hshows⟩ := opened_openBuffer hsec hfree hopen
  refine ⟨?_, fun hmeets => ?_⟩
  · have hstep : ∀ b call, (∃ k, b.Opened sec n start k) →
        ∃ k, (directStep sec b call).2.Opened sec n start k := by
      rintro b call ⟨k, h⟩
      obtain ⟨k', h', -⟩ := directStep_opened h hsec call
      exact ⟨k', h'⟩
    have halways := always_of_invariant (I := fun b : Channels => ∃ k, b.Opened sec n start k) hstep ⟨0, hopened⟩ calls
    exact halways.mono fun b ⟨k, h⟩ => h.labelled
  · have hsim := run_simulates (ringStep n)
      (fun b r => ∃ k, b.Opened sec n start k ∧ b.Shows n start k r)
      (fun b r call ⟨k, h, hr⟩ hfits => by
        obtain ⟨k', h', hr'⟩ := directStep_opened h hsec call
        obtain ⟨hreply, hshows'⟩ := hr' r hr hfits
        exact ⟨hreply, k', h', hshows'⟩)
      ⟨0, hopened, hshows⟩ hmeets
    obtain ⟨hreplies, k, h, hr⟩ := hsim
    exact ⟨hreplies, k, h.active_lt, hr⟩

/-- Two bytes across the end of the second of two buffers, and the same two read back. -/
theorem directCalls_wrap :
    (run (directStep 2) ((buffersInit 2).openBuffer [35, 35, 50] 2 0)
      [.position 255 1, .listen [(7, false), (8, true)], .position 255 1, .talk 2]).1 =
    (run (ringStep 2) (((buffersInit 2).openBuffer [35, 35, 50] 2 0).ring 2 0)
      [.position 255 1, .listen [(7, false), (8, true)], .position 255 1, .talk 2]).1 := by
  have hmeets : Meets (directStep 2) (DirectFits 2) ((buffersInit 2).openBuffer [35, 35, 50] 2 0)
      [.position 255 1, .listen [(7, false), (8, true)], .position 255 1, .talk 2] := by
    refine ⟨fun _ _ _ => trivial, fun i hi hm => ?_, fun _ _ _ => trivial, fun i hi hm => ?_, trivial⟩
    · cases (show some 1 = some i from hi)
      exact absurd hm (by decide)
    · cases (show some 1 = some i from hi)
      exact absurd hm (by decide)
  exact ((directCalls_refine (by decide) rfl (show _ = some 0 from rfl) _).2 hmeets).1

/-- The last byte of the first of two buffers is written; the byte that is read next comes from the
start of the same buffer and not from the second one. -/
theorem directCalls_readDue :
    (run (directStep 2) ((buffersInit 2).openBuffer [35, 35, 50] 2 0)
      [.listen [(1, true)], .position 255 0, .listen [(2, true)], .talk 1]).1 ≠
    (run (ringStep 2) (((buffersInit 2).openBuffer [35, 35, 50] 2 0).ring 2 0)
      [.listen [(1, true)], .position 255 0, .listen [(2, true)], .talk 1]).1 := by
  decide

end Channels

end NoDiskEmu
