import NoDiskEmu.Buffers.Cleanup
import Mathlib.Tactic.IntervalCases

/-! The buffers as their users see them: the cursor, the callbacks and the chain of a large buffer,
next to the table of `buffers.c`. -/

namespace NoDiskEmu

def BUFFER_SEC_CHAIN : ℕ := 99
def CONFIG_ERROR_BUFFER_SIZE : ℕ := 100

/-- `70,NO CHANNEL,00,00` with the CR behind it, as `set_error` puts it together from `messages` and
`abbrevs`. -/
def noChannelMessage : List UInt8 :=
  [55, 48, 44, 78, 79, 32, 67, 72, 65, 78, 78, 69, 76, 44, 48, 48, 44, 48, 48, 13]

/-- `00, OK,00,00` with the CR behind it. -/
def okMessage : List UInt8 := [48, 48, 44, 32, 79, 75, 44, 48, 48, 44, 48, 48, 13]

/-- The callbacks that the code tells apart; `other` stands for those of the file systems. -/
inductive Callback
  | null
  | callbackDummy
  | setOkMessage
  | directbufferRefill
  | largebufferCleanup
  | other (n : ℕ)
deriving DecidableEq

/-- The fields of `buffer_t` that its user works with, and the private union read as
`pvt.buffer`; for a buffer of another kind the last four are whatever the union holds. -/
structure Chan where
  lastused : ℕ
  position : ℕ
  recordlen : ℕ
  mustflush : Bool
  read : Bool
  write : Bool
  sendeoi : Bool
  refill : Callback
  cleanup : Callback
  part : ℕ
  size : ℕ
  first : Option ℕ
  next : Option ℕ

/-- A buffer as `alloc_specific_buffer` leaves it. -/
def Chan.cleared : Chan :=
  ⟨0, 0, 0, false, false, false, false, .callbackDummy, .callbackDummy, 0, 0, none, none⟩

structure Channels where
  table : Table
  chan : ℕ → Chan

/-- `buffers_init` for `CONFIG_BUFFER_COUNT` buffers. -/
def buffersInit (count : ℕ) : Channels where
  table :=
    { count
      buffers := fun i => if i = count then ⟨fun _ => 0, 15, true, false, false⟩
        else ⟨fun _ => 0, 0, false, false, false⟩
      activeBuffers := 0 }
  chan := fun i => if i = count then
      { Chan.cleared with read := true, write := true, sendeoi := true, refill := .setOkMessage }
    else { Chan.cleared with refill := .null, cleanup := .null }

namespace Channels

instance : HasTable Channels := ⟨Channels.table, fun b table => { b with table }⟩

def count (b : Channels) : ℕ := b.table.count

def setChan (b : Channels) (i : ℕ) (c : Chan) : Channels :=
  { b with chan := Function.update b.chan i c }

/-- The change of a field of `buffer_t` that `buffers.c` looks at. -/
def setSecondary (b : Channels) (i secondary : ℕ) : Channels :=
  { b with table := b.table.set i { b.table.buffers i with secondary } }

@[simp] theorem setChan_table (b : Channels) (i : ℕ) (c : Chan) : (b.setChan i c).table = b.table :=
  rfl

@[simp] theorem setChan_self (b : Channels) (i : ℕ) (c : Chan) : (b.setChan i c).chan i = c :=
  Function.update_self ..

theorem setChan_of_ne (b : Channels) {i j : ℕ} (c : Chan) (h : j ≠ i) :
    (b.setChan i c).chan j = b.chan j := Function.update_of_ne h ..

@[simp] theorem setSecondary_chan (b : Channels) (i x : ℕ) : (b.setSecondary i x).chan = b.chan := rfl

@[simp] theorem setSecondary_self (b : Channels) (i x : ℕ) :
    ((b.setSecondary i x).table.buffers i).secondary = x :=
  congrArg Buffer.secondary (b.table.set_self i _)

theorem setSecondary_of_ne (b : Channels) {i j : ℕ} (x : ℕ) (h : j ≠ i) :
    (b.setSecondary i x).table.buffers j = b.table.buffers j := b.table.set_of_ne _ h

@[simp] theorem setSecondary_data (b : Channels) (i x j : ℕ) :
    ((b.setSecondary i x).table.buffers j).data = (b.table.buffers j).data := by
  by_cases h : j = i
  · subst h
    rw [setSecondary, Table.set_self]
  · rw [setSecondary_of_ne b x h]

@[simp] theorem setSecondary_allocated (b : Channels) (i x j : ℕ) :
    ((b.setSecondary i x).table.buffers j).allocated = (b.table.buffers j).allocated := by
  by_cases h : j = i
  · subst h
    rw [setSecondary, Table.set_self]
  · rw [setSecondary_of_ne b x h]

def freeBuffer (b : Channels) (i : ℕ) : Channels := { b with table := b.table.freeBuffer i }

/-- The buffer of the error channel after `set_error`: the message `msg`, which ends with a CR, in
`error_buffer`, and its start as the position. -/
def setError (b : Channels) (msg : List UInt8) : Channels :=
  { b with table := b.table.set b.count { b.table.buffers b.count with
      data := fun i => if i < CONFIG_ERROR_BUFFER_SIZE then msg.getD i 0
        else (b.table.buffers b.count).data i } }.setChan b.count
    { b.chan b.count with lastused := msg.length - 1, position := 0 }

/-- `set_error(ERROR_NO_CHANNEL)`. -/
def noChannel (b : Channels) : Channels := b.setError noChannelMessage

@[simp] theorem setError_count (b : Channels) (msg : List UInt8) : (b.setError msg).count = b.count := rfl

@[simp] theorem setError_activeBuffers (b : Channels) (msg : List UInt8) :
    (b.setError msg).table.activeBuffers = b.table.activeBuffers := rfl

/-- No other buffer is changed. -/
theorem setError_of_ne (b : Channels) (msg : List UInt8) {i : ℕ} (h : i ≠ b.count) :
    (b.setError msg).table.buffers i = b.table.buffers i ∧ (b.setError msg).chan i = b.chan i :=
  ⟨b.table.set_of_ne _ h, setChan_of_ne _ _ h⟩

/-- The buffer of the error channel stays what it is for `buffers.c`. -/
theorem setError_buffers (b : Channels) (msg : List UInt8) (i : ℕ) :
    ∃ data, (b.setError msg).table.buffers i = { b.table.buffers i with data } := by
  by_cases h : i = b.count
  · subst h
    exact ⟨_, b.table.set_self b.count _⟩
  · exact ⟨_, (setError_of_ne b msg h).1⟩

@[simp] theorem setError_allocated (b : Channels) (msg : List UInt8) (i : ℕ) :
    ((b.setError msg).table.buffers i).allocated = (b.table.buffers i).allocated := by
  obtain ⟨data, h⟩ := b.setError_buffers msg i
  rw [h]

@[simp] theorem setError_next (b : Channels) (msg : List UInt8) (i : ℕ) :
    ((b.setError msg).chan i).next = (b.chan i).next := by
  by_cases h : i = b.count
  · subst h
    have hself : (b.setError msg).chan b.count = _ := setChan_self ..
    rw [hself]
  · rw [(setError_of_ne b msg h).2]

theorem setError_findBuffer (b : Channels) (msg : List UInt8) (secondary : ℕ) :
    (b.setError msg).table.findBuffer secondary = b.table.findBuffer secondary := by
  refine congrArg (List.find? · (List.range (b.count + 1))) (funext fun i => ?_)
  obtain ⟨data, h⟩ := b.setError_buffers msg i
  rw [h]

def allocSystemBuffer (b : Channels) : Option ℕ × Channels :=
  match b.table.allocSystemBuffer with
  | (none, _) => (none, b.noChannel)
  | (some i, table) => (some i, { b with table }.setChan i Chan.cleared)

def allocBuffer (b : Channels) : Option ℕ × Channels :=
  match b.table.allocBuffer with
  | (none, _) => (none, b.noChannel)
  | (some i, table) => (some i, { b with table }.setChan i Chan.cleared)

/-- Buffer `i` taken for system use. -/
def takeSystem (b : Channels) (i : ℕ) : Channels :=
  { b with
    table := b.table.set i ⟨(b.table.buffers i).data, BUFFER_SEC_SYSTEM, true, false, false⟩ }.setChan i
      Chan.cleared

/-- The first free buffer, or none and a message on the error channel. -/
theorem allocSystemBuffer_first (b : Channels) :
    (b.table.firstFree = none ∧ b.allocSystemBuffer = (none, b.noChannel)) ∨
      ∃ i, b.table.firstFree = some i ∧ b.allocSystemBuffer = (some i, b.takeSystem i) := by
  rw [allocSystemBuffer]
  cases hfree : b.table.firstFree with
  | none =>
    rw [Table.allocSystemBuffer_of_none hfree]
    exact .inl ⟨rfl, rfl⟩
  | some i =>
    rw [Table.allocSystemBuffer_of_some hfree]
    exact .inr ⟨i, rfl, rfl⟩

theorem allocSystemBuffer_cases (b : Channels) :
    b.allocSystemBuffer = (none, b.noChannel) ∨ ∃ i < b.count, (b.table.buffers i).allocated = false ∧
      b.allocSystemBuffer = (some i, b.takeSystem i) := by
  obtain ⟨-, heq⟩ | ⟨i, hfree, heq⟩ := b.allocSystemBuffer_first
  · exact .inl heq
  · obtain ⟨hi, hallocated⟩ := Table.firstFree_spec hfree
    exact .inr ⟨i, hi, hallocated, heq⟩

/-- A buffer that was free, or none and a message on the error channel. -/
theorem allocBuffer_cases (b : Channels) :
    b.allocBuffer = (none, b.noChannel) ∨ ∃ i < b.count, (b.table.buffers i).allocated = false ∧
      ∃ b', b.allocBuffer = (some i, b') ∧ b'.count = b.count ∧ b'.chan i = Chan.cleared ∧
        b'.table.buffers i = ⟨(b.table.buffers i).data, 0, true, false, false⟩ ∧
        ∀ j ≠ i, b'.table.buffers j = b.table.buffers j ∧ b'.chan j = b.chan j := by
  rw [allocBuffer, Table.allocBuffer]
  cases hfree : b.table.firstFree with
  | none =>
    rw [Table.allocSystemBuffer_of_none hfree]
    exact .inl rfl
  | some i =>
    obtain ⟨hi, hallocated⟩ := Table.firstFree_spec hfree
    rw [Table.allocSystemBuffer_of_some hfree]
    refine .inr ⟨i, hi, hallocated, _, rfl, rfl, setChan_self .., ?_, fun j hj => ⟨?_, setChan_of_ne _ _ hj⟩⟩
    · rw [setChan_table, Table.set_self, Table.set_self]
    · exact (Table.set_of_ne _ _ hj).trans (Table.set_of_ne _ _ hj)

/-- The scan of `alloc_linked_buffers`: the length of the last stretch of free buffers, and its
start. -/
def scanLinked (t : Table) (count : ℕ) : List ℕ → ℕ → ℕ → ℕ × ℕ
  | [], freebufs, start => (freebufs, start)
  | i :: is, freebufs, start =>
    if (t.buffers i).allocated then scanLinked t count is 0 start
    else
      let start := if freebufs = 0 then i else start
      if freebufs + 1 = count then (freebufs + 1, start)
      else scanLinked t count is (freebufs + 1) start

/-- Buffer `start + k` of a chain of `count` buffers. -/
def linkBuffer (count start : ℕ) (b : Channels) (k : ℕ) : Channels :=
  let i := start + k
  let t := b.table.allocSpecificBuffer i
  { b with
    table := { t.set i { t.buffers i with secondary := 0 } with
      activeBuffers := (t.activeBuffers + 1) % 256 } }.setChan i
    { (if (b.table.buffers i).allocated then b.chan i else Chan.cleared) with
      size := count
      first := some start
      next := if k + 1 < count then some (i + 1) else none }

/-- `alloc_linked_buffers`. -/
def allocLinkedBuffers (b : Channels) (count : ℕ) : Option ℕ × Channels :=
  let r := scanLinked b.table count (List.range b.count) 0 0
  if r.1 < count then (none, b.noChannel)
  else (some r.2, (List.range count).foldl (linkBuffer count r.2) b)

/-- No buffer of the stretch is allocated. -/
def FreeRun (t : Table) (count start : ℕ) : Prop := ∀ k < count, (t.buffers (start + k)).allocated = false

/-- The variables of the scan in front of buffer `i`: a stretch of `freebufs` free buffers ends there, an
allocated one or the start of the table comes before it, and no stretch was long enough so far. -/
structure Scanned (t : Table) (count i freebufs start : ℕ) : Prop where
  lt : freebufs < count
  le : freebufs ≤ i
  start_add : freebufs ≠ 0 → start + freebufs = i
  free : FreeRun t freebufs (i - freebufs)
  blocked : freebufs < i → (t.buffers (i - freebufs - 1)).allocated = true
  short : ∀ s, s + count ≤ i → ¬FreeRun t count s

namespace Scanned

variable {t : Table} {count i freebufs start : ℕ}

theorem allocated (h : Scanned t count i freebufs start) (halloc : (t.buffers i).allocated = true) :
    Scanned t count (i + 1) 0 start where
  lt := Nat.zero_lt_of_lt h.lt
  le := Nat.zero_le _
  start_add hne := absurd rfl hne
  free := fun k hk => absurd hk (Nat.not_lt_zero k)
  blocked _ := halloc
  short s hs hfree := by
    have hlt := h.lt
    by_cases hend : s + count ≤ i
    · exact h.short s hend hfree
    · have hlast := hfree (i - s) (by omega)
      rw [Nat.add_sub_cancel' (by omega), halloc] at hlast
      exact Bool.noConfusion hlast

/-- The start of the stretch with buffer `i`. -/
theorem start_eq (h : Scanned t count i freebufs start) :
    (if freebufs = 0 then i else start) + freebufs = i := by
  split
  · omega
  · next hne => exact h.start_add hne

theorem freeRun_succ (h : Scanned t count i freebufs start) (hfree : (t.buffers i).allocated = false) :
    FreeRun t (freebufs + 1) (i - freebufs) := by
  intro k hk
  have hle := h.le
  rcases Nat.lt_succ_iff_lt_or_eq.mp hk with hlt | rfl
  · exact h.free k hlt
  · rwa [Nat.sub_add_cancel hle]

theorem free_succ (h : Scanned t count i freebufs start) (hfree : (t.buffers i).allocated = false)
    (hmore : freebufs + 1 ≠ count) :
    Scanned t count (i + 1) (freebufs + 1) (if freebufs = 0 then i else start) := by
  have hlt := h.lt
  have hle := h.le
  have hstart := h.start_eq
  refine ⟨by omega, by omega, fun _ => by omega, ?_, fun hi => ?_, fun s hs hrun => ?_⟩
  · rw [Nat.add_sub_add_right]
    exact h.freeRun_succ hfree
  · rw [Nat.add_sub_add_right]
    exact h.blocked (by omega)
  · by_cases hend : s + count ≤ i
    · exact h.short s hend hrun
    · -- A stretch that ends with buffer `i` holds the allocated buffer before the free ones.
      have hblocked := h.blocked (by omega)
      have hmem := hrun (i - freebufs - 1 - s) (by omega)
      rw [Nat.add_sub_cancel' (by omega), hblocked] at hmem
      exact Bool.noConfusion hmem

end Scanned

/-- The scan stops at the end of the first stretch that is long enough, or there is none. -/
theorem scanLinked_spec {t : Table} {count : ℕ} (m : ℕ) {i freebufs start : ℕ}
    (h : Scanned t count i freebufs start) :
    let r := scanLinked t count (List.range' i m) freebufs start
    (r.1 < count ∧ ∀ s, s + count ≤ i + m → ¬FreeRun t count s) ∨
      (r.1 = count ∧ r.2 + count ≤ i + m ∧ FreeRun t count r.2 ∧ ∀ s < r.2, ¬FreeRun t count s) := by
  induction m generalizing i freebufs start with
  | zero => exact .inl ⟨h.lt, h.short⟩
  | succ m ih =>
    have hend : i + 1 + m = i + (m + 1) := by omega
    rw [List.range'_succ, scanLinked]
    cases halloc : (t.buffers i).allocated with
    | true =>
      rw [if_pos rfl, ← hend]
      exact ih (h.allocated halloc)
    | false =>
      rw [if_neg Bool.false_ne_true]
      dsimp only
      split
      · next hcount =>
        have hstart := h.start_eq
        have hrun := h.freeRun_succ halloc
        rw [hcount, show i - freebufs = if freebufs = 0 then i else start by omega] at hrun
        exact .inr ⟨hcount, by dsimp only; omega, hrun, fun s hs => h.short s (by dsimp only at hs; omega)⟩
      · next hcount =>
        rw [← hend]
        exact ih (h.free_succ halloc hcount)

theorem scanned_zero (t : Table) {count : ℕ} (hcount : 0 < count) : Scanned t count 0 0 0 where
  lt := hcount
  le := Nat.le_refl 0
  start_add hne := absurd rfl hne
  free := fun k hk => absurd hk (Nat.not_lt_zero k)
  blocked hlt := absurd hlt (Nat.lt_irrefl 0)
  short s hs := absurd hs (by omega)

/-- The first stretch of free buffers that is long enough is linked; without one there is a message on the
error channel. -/
theorem allocLinkedBuffers_first (b : Channels) {n : ℕ} (hn : 0 < n) :
    (b.allocLinkedBuffers n = (none, b.noChannel) ∧ ∀ s, s + n ≤ b.count → ¬FreeRun b.table n s) ∨
      ∃ start, start + n ≤ b.count ∧ FreeRun b.table n start ∧ (∀ s < start, ¬FreeRun b.table n s) ∧
        b.allocLinkedBuffers n = (some start, (List.range n).foldl (linkBuffer n start) b) := by
  have hspec := scanLinked_spec b.count (scanned_zero b.table hn)
  rw [← List.range_eq_range', Nat.zero_add] at hspec
  rw [allocLinkedBuffers]
  obtain ⟨hlt, hnone⟩ | ⟨heq, hle, hfree, hfirst⟩ := hspec
  · exact .inl ⟨if_pos hlt, hnone⟩
  · exact .inr ⟨_, hle, hfree, hfirst, if_neg (by omega)⟩

theorem allocLinkedBuffers_cases (b : Channels) {n : ℕ} (hn : 0 < n) :
    b.allocLinkedBuffers n = (none, b.noChannel) ∨ ∃ start, start + n ≤ b.count ∧
      (∀ k < n, (b.table.buffers (start + k)).allocated = false) ∧
      b.allocLinkedBuffers n = (some start, (List.range n).foldl (linkBuffer n start) b) := by
  obtain ⟨hnone, -⟩ | ⟨start, hle, hfree, -, heq⟩ := b.allocLinkedBuffers_first hn
  · exact .inl hnone
  · exact .inr ⟨start, hle, hfree, heq⟩

/-- What linking the first `m` buffers of a chain of `n` changes. -/
structure Linked (b : Channels) (n start m : ℕ) (b' : Channels) : Prop where
  count : b'.count = b.count
  others : ∀ i, i < start ∨ start + m ≤ i →
    b'.table.buffers i = b.table.buffers i ∧ b'.chan i = b.chan i
  buffer : ∀ k < m, b'.table.buffers (start + k) =
    ⟨(b.table.buffers (start + k)).data, 0, true, false, false⟩
  chan : ∀ k < m, b'.chan (start + k) = { Chan.cleared with
    size := n
    first := some start
    next := if k + 1 < n then some (start + k + 1) else none }

theorem linkBuffer_eq {b : Channels} {n start k : ℕ}
    (hfree : (b.table.buffers (start + k)).allocated = false) :
    linkBuffer n start b k = { b with
      table := { b.table.set (start + k)
        ⟨(b.table.buffers (start + k)).data, 0, true, false, false⟩ with
          activeBuffers := (b.table.activeBuffers + 1) % 256 } }.setChan (start + k)
        { Chan.cleared with
          size := n
          first := some start
          next := if k + 1 < n then some (start + k + 1) else none } := by
  simp only [linkBuffer, Table.allocSpecificBuffer, hfree, Table.set, Function.update_self,
    Function.update_idem, if_neg Bool.false_ne_true]

theorem linked_foldl {b : Channels} {n start : ℕ} (m : ℕ)
    (hfree : ∀ k < m, (b.table.buffers (start + k)).allocated = false) :
    Linked b n start m ((List.range m).foldl (linkBuffer n start) b) := by
  induction m with
  | zero => exact ⟨rfl, fun _ _ => ⟨rfl, rfl⟩, fun _ hk => absurd hk (by omega),
      fun _ hk => absurd hk (by omega)⟩
  | succ m ih =>
    have h := ih fun k hk => hfree k (by omega)
    obtain ⟨hbuf, -⟩ := h.others (start + m) (by omega)
    rw [List.range_succ, List.foldl_append, List.foldl_cons, List.foldl_nil,
      linkBuffer_eq (by rw [hbuf]; exact hfree m (by omega)), hbuf]
    refine ⟨h.count, fun i hi => ?_, fun k hk => ?_, fun k hk => ?_⟩
    · have hne : i ≠ start + m := by omega
      obtain ⟨hb, hc⟩ := h.others i (by omega)
      exact ⟨(Function.update_of_ne hne ..).trans hb, (Function.update_of_ne hne ..).trans hc⟩
    · by_cases hlast : k = m
      · subst hlast
        exact Function.update_self ..
      · exact (Function.update_of_ne (by omega) ..).trans (h.buffer k (by omega))
    · by_cases hlast : k = m
      · subst hlast
        exact Function.update_self ..
      · exact (Function.update_of_ne (by omega) ..).trans (h.chan k (by omega))

/-- The `data` pointers of `buffers_init`, which nothing changes, with `bufferdata` at address 0. -/
def dataPointer (b : Channels) (errorBuffer i : ℕ) : ℕ := if i = b.count then errorBuffer else 256 * i

/-- A run of buffers is found if there is one, and it is the first one that is linked. Without one, all
that changes is the error channel, which has a message. -/
theorem allocLinkedBuffers_spec (b : Channels) {n : ℕ} (hn : 1 ≤ n) :
    ((b.allocLinkedBuffers n).1.isSome ↔ ∃ s, s + n ≤ b.count ∧ FreeRun b.table n s) ∧
      (∀ start ∈ (b.allocLinkedBuffers n).1, start + n ≤ b.count ∧ FreeRun b.table n start ∧
        (∀ s < start, ¬FreeRun b.table n s) ∧ Linked b n start n (b.allocLinkedBuffers n).2 ∧
        ∀ errorBuffer k, k + 1 < n →
          b.dataPointer errorBuffer (start + k + 1) = b.dataPointer errorBuffer (start + k) + 256) ∧
      ((b.allocLinkedBuffers n).1 = none → (b.allocLinkedBuffers n).2 = b.setError noChannelMessage ∧
        ∀ i ≠ b.count, (b.allocLinkedBuffers n).2.table.buffers i = b.table.buffers i ∧
          (b.allocLinkedBuffers n).2.chan i = b.chan i) := by
  obtain ⟨heq, hnone⟩ | ⟨start, hle, hfree, hfirst, heq⟩ := b.allocLinkedBuffers_first hn
  · rw [heq]
    refine ⟨iff_of_false Bool.false_ne_true ?_, fun start h => absurd h (Option.not_mem_none start),
      fun _ => ⟨rfl, fun i hi => b.setError_of_ne _ hi⟩⟩
    rintro ⟨s, hle, hfree⟩
    exact hnone s hle hfree
  · rw [heq]
    refine ⟨iff_of_true rfl ⟨start, hle, hfree⟩, ?_, fun h => absurd h (Option.some_ne_none start)⟩
    rintro _ ⟨⟩
    refine ⟨hle, hfree, hfirst, linked_foldl n hfree, fun errorBuffer k hk => ?_⟩
    rw [dataPointer, dataPointer, if_neg (by omega), if_neg (by omega)]
    omega

/-- Three of the four buffers of a fresh table. -/
theorem allocLinkedBuffers_fresh : ((buffersInit 4).allocLinkedBuffers 3).1 = some 0 := by
  have hspec := (buffersInit 4).allocLinkedBuffers_spec (n := 3) (by decide)
  have hsome := hspec.1.mpr ⟨0, by decide, fun k hk => by interval_cases k <;> rfl⟩
  obtain ⟨start, hstart⟩ := Option.isSome_iff_exists.mp hsome
  have hzero : start = 0 := by
    by_contra hne
    exact (hspec.2.1 start hstart).2.2.1 0 (by omega) fun k hk => by interval_cases k <;> rfl
  rw [hstart, hzero]

/-- Five of four buffers: the error channel gets another position behind its last byte. -/
theorem allocLinkedBuffers_changes : ¬∀ (b : Channels) (n : ℕ), 1 ≤ n → (b.allocLinkedBuffers n).1 = none →
    ∀ i ≤ b.count, (b.allocLinkedBuffers n).2.chan i = b.chan i := by
  intro h
  have hlast := congrArg Chan.lastused (h (buffersInit 4) 5 (by decide) (by decide) 4 (by decide))
  exact absurd hlast (by decide)

end Channels

end NoDiskEmu
