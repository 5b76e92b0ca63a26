import NoDiskEmu.Buffers.Channels
import NoDiskEmu.Library.Run
import NoDiskEmu.Library.Tally

/-! The byte `active_buffers` against the table: the number of buffers in use by the host in its low
half and the number of dirty ones in its high half. -/

namespace NoDiskEmu

open Library Library.Run Library.Tally

namespace Table

def userBuffer (t : Table) (i : ℕ) : Bool :=
  (t.buffers i).allocated && decide ((t.buffers i).secondary < BUFFER_SEC_SYSTEM)

def dirtyBuffer (t : Table) (i : ℕ) : Bool := (t.buffers i).allocated && (t.buffers i).dirty

/-- The number of data buffers that are allocated for a secondary address. -/
def users (t : Table) : ℕ := tally t.count t.userBuffer

/-- The number of data buffers that are allocated and dirty. -/
def dirties (t : Table) : ℕ := tally t.count t.dirtyBuffer

/-- The byte holds both numbers, and neither has carried into the other. -/
structure Ledger (t : Table) : Prop where
  active : t.activeBuffers = t.users + 16 * t.dirties
  users_lt : t.users < 16
  dirties_lt : t.dirties < 16
  checkFree : t.checkFreeBuffers = decide (t.users < t.count)
  dirtyCount : t.getDirtyBufferCount = t.dirties

variable {t t' : Table} {i : ℕ}

theorem Ledger.of_active (hactive : t.activeBuffers = t.users + 16 * t.dirties) (hu : t.users < 16)
    (hd : t.dirties < 16) : t.Ledger := by
  refine ⟨hactive, hu, hd, ?_, ?_⟩
  · rw [checkFreeBuffers, hactive, show (t.users + 16 * t.dirties) % 16 = t.users by omega]
  · rw [getDirtyBufferCount, hactive]
    omega

/-- What the ledger depends on. -/
theorem Ledger.congr (h : t.Ledger) (hcount : t'.count = t.count)
    (hactive : t'.activeBuffers = t.activeBuffers)
    (huser : ∀ j < t.count, t'.userBuffer j = t.userBuffer j)
    (hdirty : ∀ j < t.count, t'.dirtyBuffer j = t.dirtyBuffer j) : t'.Ledger := by
  have hu : t'.users = t.users := by
    rw [users, hcount]
    exact tally_congr huser
  have hd : t'.dirties = t.dirties := by
    rw [dirties, hcount]
    exact tally_congr hdirty
  exact .of_active (by rw [hactive, h.active, hu, hd]) (hu ▸ h.users_lt) (hd ▸ h.dirties_lt)

theorem users_set (hi : i < t.count) (b : Buffer) :
    (t.set i b).users + (t.userBuffer i).toNat =
      t.users + (b.allocated && decide (b.secondary < BUFFER_SEC_SYSTEM)).toNat := by
  have hupdate := tally_update (n := t.count) (f := (t.set i b).userBuffer) (g := t.userBuffer) hi
    fun j _ hj => by rw [userBuffer, set_of_ne t b hj, userBuffer]
  rwa [show (t.set i b).userBuffer i = (b.allocated && decide (b.secondary < BUFFER_SEC_SYSTEM)) by
    rw [userBuffer, set_self]] at hupdate

theorem dirties_set (hi : i < t.count) (b : Buffer) :
    (t.set i b).dirties + (t.dirtyBuffer i).toNat = t.dirties + (b.allocated && b.dirty).toNat := by
  have hupdate := tally_update (n := t.count) (f := (t.set i b).dirtyBuffer) (g := t.dirtyBuffer) hi
    fun j _ hj => by rw [dirtyBuffer, set_of_ne t b hj, dirtyBuffer]
  rwa [show (t.set i b).dirtyBuffer i = (b.allocated && b.dirty) by
    rw [dirtyBuffer, set_self]] at hupdate

/-- A buffer is replaced and the byte is adjusted: `u` and `d` tell whether the old buffer was counted,
`v` and `e` whether the new one is. -/
theorem Ledger.set (h : t.Ledger) (hi : i < t.count) {b : Buffer} {n : ℕ} {u d v e : Bool}
    (hold : t.userBuffer i = u ∧ t.dirtyBuffer i = d)
    (hnew : (b.allocated && decide (b.secondary < BUFFER_SEC_SYSTEM)) = v ∧
      (b.allocated && b.dirty) = e)
    (hn : n + u.toNat + 16 * d.toNat = t.activeBuffers + v.toNat + 16 * e.toNat)
    (hu : t.users + v.toNat < 16 + u.toNat) (hd : t.dirties + e.toNat < 16 + d.toNat) :
    ({ t.set i b with activeBuffers := n } : Table).Ledger := by
  have husers := users_set hi b
  have hdirties := dirties_set hi b
  rw [hold.1, hnew.1] at husers
  rw [hold.2, hnew.2] at hdirties
  have hactive := h.active
  refine .of_active ?_ ?_ ?_
  · show n = (t.set i b).users + 16 * (t.set i b).dirties
    omega
  · show (t.set i b).users < 16
    omega
  · show (t.set i b).dirties < 16
    omega

theorem not_counted_of_free (h : (t.buffers i).allocated = false) :
    t.userBuffer i = false ∧ t.dirtyBuffer i = false := by
  rw [userBuffer, dirtyBuffer, h]
  exact ⟨rfl, rfl⟩

/-- A free buffer is taken for system use. -/
theorem Ledger.allocSystem (h : t.Ledger) (hi : i < t.count) (hfree : (t.buffers i).allocated = false) :
    (t.set i ⟨(t.buffers i).data, BUFFER_SEC_SYSTEM, true, false, false⟩).Ledger :=
  h.set hi (not_counted_of_free hfree) ⟨rfl, rfl⟩ rfl (by have := h.users_lt; simpa)
    (by have := h.dirties_lt; simpa)

/-- A buffer for system use is given to the host. -/
theorem Ledger.take (h : t.Ledger) (hi : i < t.count) (halloc : (t.buffers i).allocated = true)
    (hsys : (t.buffers i).secondary = BUFFER_SEC_SYSTEM) (hroom : t.users < 15) :
    ({ t.set i { t.buffers i with secondary := 0 } with
      activeBuffers := (t.activeBuffers + 1) % 256 } : Table).Ledger := by
  have hactive := h.active
  have hd := h.dirties_lt
  refine h.set hi (u := false) (v := true) ⟨?_, rfl⟩ ⟨?_, rfl⟩ ?_ ?_ ?_
  · rw [userBuffer, hsys]
    simp
  · simp [halloc, BUFFER_SEC_SYSTEM]
  · rw [Nat.mod_eq_of_lt (by omega)]
    rfl
  · exact Nat.succ_lt_succ hroom
  · exact Nat.add_lt_add_right hd _

theorem Ledger.free (h : t.Ledger) (hi : i < t.count) : (t.freeBuffer i).Ledger := by
  rw [freeBuffer]
  split
  · exact h
  · next hcond =>
    have halloc : (t.buffers i).allocated = true := by
      rw [not_or] at hcond
      simpa using hcond.2
    have hactive := h.active
    have hu := h.users_lt
    have hd := h.dirties_lt
    have hle : (t.userBuffer i).toNat ≤ t.users ∧ (t.dirtyBuffer i).toNat ≤ t.dirties := by
      have husers := users_set hi { t.buffers i with allocated := false }
      have hdirties := dirties_set hi { t.buffers i with allocated := false }
      rw [show ∀ x : Bool, (false && x).toNat = 0 from fun _ => rfl] at husers hdirties
      omega
    refine h.set hi ⟨rfl, rfl⟩ ⟨rfl, rfl⟩ ?_ ?_ ?_
    · have hx : (if (t.buffers i).secondary < BUFFER_SEC_SYSTEM then 1 else 0) =
          (t.userBuffer i).toNat := by
        rw [userBuffer, halloc, Bool.true_and]
        by_cases hsec : (t.buffers i).secondary < BUFFER_SEC_SYSTEM <;> simp [hsec]
      have hy : (if (t.buffers i).dirty then 16 else 0) = 16 * (t.dirtyBuffer i).toNat := by
        rw [dirtyBuffer, halloc, Bool.true_and]
        cases (t.buffers i).dirty <;> rfl
      rw [hx, hy]
      simp only [Bool.false_and, Bool.toNat_false]
      omega
    · simp only [Bool.false_and, Bool.toNat_false]
      omega
    · simp only [Bool.false_and, Bool.toNat_false]
      omega

theorem Ledger.markDirty (h : t.Ledger) (hi : i < t.count) (halloc : (t.buffers i).allocated = true)
    (hroom : (t.buffers i).dirty = true ∨ t.dirties < 15) : (t.markBufferDirty i).Ledger := by
  rw [markBufferDirty]
  split
  · exact h
  · next hclean =>
    have hclean : (t.buffers i).dirty = false := by simpa using hclean
    have hless : t.dirties < 15 := hroom.resolve_left (by simp [hclean])
    have hactive := h.active
    have hu := h.users_lt
    refine h.set hi (v := t.userBuffer i) (d := false) (e := true) ⟨rfl, ?_⟩ ⟨rfl, ?_⟩ ?_ ?_ ?_
    · rw [dirtyBuffer, hclean, Bool.and_false]
    · rw [halloc, Bool.true_and]
    · rw [Nat.mod_eq_of_lt (by omega)]
      exact Nat.add_right_comm t.activeBuffers 16 (t.userBuffer i).toNat
    · exact Nat.add_lt_add_right hu _
    · exact Nat.succ_lt_succ hless

theorem Ledger.markClean (h : t.Ledger) (hi : i < t.count) (halloc : (t.buffers i).allocated = true) :
    (t.markBufferClean i).Ledger := by
  rw [markBufferClean]
  split
  · next hdirt =>
    have hactive := h.active
    have hu := h.users_lt
    have hd := h.dirties_lt
    have hdirty : t.dirtyBuffer i = true := by rw [dirtyBuffer, halloc, hdirt, Bool.and_true]
    have hpos : 0 < t.dirties := by
      have hdirties := dirties_set hi { t.buffers i with dirty := false }
      rw [hdirty, Bool.and_false] at hdirties
      simp only [Bool.toNat_true, Bool.toNat_false] at hdirties
      omega
    refine h.set hi (d := true) (e := false) ⟨rfl, hdirty⟩ ⟨rfl, ?_⟩ ?_ ?_ ?_
    · rw [Bool.and_false]
    · have hmod : (t.activeBuffers + 256 - 16) % 256 + 16 = t.activeBuffers := by omega
      show _ + (t.userBuffer i).toNat + 16 = t.activeBuffers + (t.userBuffer i).toNat + 0
      omega
    · exact Nat.add_lt_add_right hu _
    · simp only [Bool.toNat_true, Bool.toNat_false]
      omega
  · exact h

/-- A buffer gets another address of the same kind. -/
theorem Ledger.relabel (h : t.Ledger) {secondary : ℕ}
    (hkind : secondary < BUFFER_SEC_SYSTEM ↔ (t.buffers i).secondary < BUFFER_SEC_SYSTEM) :
    (t.set i { t.buffers i with secondary }).Ledger := by
  refine h.congr rfl rfl (fun j _ => ?_) fun j _ => ?_
  · by_cases hj : j = i
    · rw [userBuffer, hj, set_self, userBuffer, decide_eq_decide.mpr hkind]
    · rw [userBuffer, set_of_ne t _ hj, userBuffer]
  · by_cases hj : j = i
    · rw [dirtyBuffer, hj, set_self, dirtyBuffer]
    · rw [dirtyBuffer, set_of_ne t _ hj, dirtyBuffer]

end Table

/-- The calls on single buffers. -/
inductive BufferCall
  | allocBuffer
  | allocLinkedBuffers (count : ℕ)
  | allocSystemBuffer
  | freeBuffer (i : ℕ)
  | markBufferDirty (i : ℕ)
  | markBufferClean (i : ℕ)
  /-- The user of a buffer gives it its secondary address. -/
  | setSecondary (i secondary : ℕ)

namespace BufferCall

/-- The buffer that was allocated, and the buffers after the call. -/
def step (b : Channels) : BufferCall → Option ℕ × Channels
  | allocBuffer => b.allocBuffer
  | allocLinkedBuffers count => b.allocLinkedBuffers count
  | allocSystemBuffer => b.allocSystemBuffer
  | freeBuffer i => (none, b.freeBuffer i)
  | markBufferDirty i => (none, { b with table := b.table.markBufferDirty i })
  | markBufferClean i => (none, { b with table := b.table.markBufferClean i })
  | setSecondary i secondary => (none, b.setSecondary i secondary)

/-- A call on a buffer that exists and is in use, by a user that keeps to the addresses of its kind
of buffers; an allocation that succeeds, or a buffer that becomes dirty, finds room in the half of the
byte that it increments. -/
def Fits (b : Channels) : BufferCall → Prop
  | allocBuffer => b.table.firstFree = none ∨ b.table.users < 15
  | allocLinkedBuffers count => 0 < count ∧
      ((Channels.scanLinked b.table count (List.range b.count) 0 0).1 < count ∨
        b.table.users + count < 16)
  | allocSystemBuffer => True
  | freeBuffer i => i < b.count
  | markBufferDirty i => i < b.count ∧ (b.table.buffers i).allocated = true ∧
      ((b.table.buffers i).dirty = true ∨ b.table.dirties < 15)
  | markBufferClean i => i < b.count ∧ (b.table.buffers i).allocated = true
  | setSecondary i secondary =>
    secondary < BUFFER_SEC_SYSTEM ↔ (b.table.buffers i).secondary < BUFFER_SEC_SYSTEM

end BufferCall

namespace Channels

variable {b : Channels}

/-- A message on the error channel counts for nothing. -/
theorem ledger_setError (h : b.table.Ledger) (msg : List UInt8) : (b.setError msg).table.Ledger := by
  refine h.congr rfl rfl (fun i _ => ?_) fun i _ => ?_
  all_goals
    obtain ⟨data, heq⟩ := b.setError_buffers msg i
  · rw [Table.userBuffer, heq, Table.userBuffer]
  · rw [Table.dirtyBuffer, heq, Table.dirtyBuffer]

theorem ledger_allocSystemBuffer (h : b.table.Ledger) : b.allocSystemBuffer.2.table.Ledger := by
  rw [allocSystemBuffer]
  cases hfree : b.table.firstFree with
  | none =>
    rw [Table.allocSystemBuffer_of_none hfree]
    exact ledger_setError h _
  | some i =>
    obtain ⟨hi, halloc⟩ := Table.firstFree_spec hfree
    rw [Table.allocSystemBuffer_of_some hfree]
    exact h.allocSystem hi halloc

theorem ledger_allocBuffer (h : b.table.Ledger)
    (hroom : b.table.firstFree = none ∨ b.table.users < 15) : b.allocBuffer.2.table.Ledger := by
  rw [allocBuffer, Table.allocBuffer]
  cases hfree : b.table.firstFree with
  | none =>
    rw [Table.allocSystemBuffer_of_none hfree]
    exact ledger_setError h _
  | some i =>
    obtain ⟨hi, halloc⟩ := Table.firstFree_spec hfree
    rw [Table.allocSystemBuffer_of_some hfree]
    have hsys := h.allocSystem hi halloc
    have hself := Table.set_self b.table i
      ⟨(b.table.buffers i).data, BUFFER_SEC_SYSTEM, true, false, false⟩
    refine hsys.take hi (congrArg Buffer.allocated hself) (congrArg Buffer.secondary hself) ?_
    have husers := Table.users_set hi
      ⟨(b.table.buffers i).data, BUFFER_SEC_SYSTEM, true, false, false⟩
    rw [show (true && decide (BUFFER_SEC_SYSTEM < BUFFER_SEC_SYSTEM)).toNat = 0 from rfl] at husers
    have hless := hroom.resolve_left (by simp [hfree])
    omega

/-- A buffer of a chain. -/
theorem ledger_linkBuffer {n start k : ℕ} (h : b.table.Ledger) (hi : start + k < b.count)
    (hfree : (b.table.buffers (start + k)).allocated = false) (hroom : b.table.users < 15) :
    (linkBuffer n start b k).table.Ledger ∧
      (linkBuffer n start b k).table.users = b.table.users + 1 := by
  rw [linkBuffer_eq hfree]
  have husers := Table.users_set hi ⟨(b.table.buffers (start + k)).data, 0, true, false, false⟩
  rw [(Table.not_counted_of_free hfree).1,
    show (true && decide (0 < BUFFER_SEC_SYSTEM)).toNat = 1 from rfl] at husers
  have hactive := h.active
  have hd := h.dirties_lt
  refine ⟨h.set hi (Table.not_counted_of_free hfree) ⟨rfl, rfl⟩ ?_ ?_ ?_, husers⟩
  · rw [Nat.mod_eq_of_lt (by omega)]
    rfl
  · exact Nat.succ_lt_succ hroom
  · simpa using hd

theorem ledger_linked {n start : ℕ} (m : ℕ) (h : b.table.Ledger) (hle : start + m ≤ b.count)
    (hfree : ∀ k < m, (b.table.buffers (start + k)).allocated = false)
    (hroom : b.table.users + m < 16) :
    ((List.range m).foldl (linkBuffer n start) b).table.Ledger ∧
      ((List.range m).foldl (linkBuffer n start) b).table.users = b.table.users + m := by
  induction m with
  | zero => exact ⟨h, rfl⟩
  | succ m ih =>
    obtain ⟨hledger, husers⟩ := ih (by omega) (fun k hk => hfree k (by omega)) (by omega)
    have hlinked := linked_foldl (n := n) m fun k hk => hfree k (Nat.lt_succ_of_lt hk)
    rw [List.range_succ, List.foldl_append, List.foldl_cons, List.foldl_nil]
    have hlt : start + m < ((List.range m).foldl (linkBuffer n start) b).count := by
      rw [hlinked.count]
      omega
    have hstep := @ledger_linkBuffer _ n _ _ hledger hlt
      (by rw [(hlinked.others (start + m) (by omega)).1]; exact hfree m (by omega)) (by omega)
    exact ⟨hstep.1, by omega⟩

theorem ledger_allocLinkedBuffers {n : ℕ} (h : b.table.Ledger) (hn : 0 < n)
    (hroom : (scanLinked b.table n (List.range b.count) 0 0).1 < n ∨ b.table.users + n < 16) :
    (b.allocLinkedBuffers n).2.table.Ledger := by
  rcases hroom with hshort | hroom
  · rw [allocLinkedBuffers, if_pos hshort]
    exact ledger_setError h _
  · rcases allocLinkedBuffers_cases b hn with heq | ⟨start, hle, hfree, heq⟩
    · rw [heq]
      exact ledger_setError h _
    · rw [heq]
      exact (ledger_linked n h hle hfree hroom).1

end Channels

theorem BufferCall.ledger_step {b : Channels} (h : b.table.Ledger) {c : BufferCall} (hc : c.Fits b) :
    (c.step b).2.table.Ledger := by
  cases c with
  | allocBuffer => exact Channels.ledger_allocBuffer h hc
  | allocLinkedBuffers n => exact Channels.ledger_allocLinkedBuffers h hc.1 hc.2
  | allocSystemBuffer => exact Channels.ledger_allocSystemBuffer h
  | freeBuffer i => exact h.free hc
  | markBufferDirty i => exact h.markDirty hc.1 hc.2.1 hc.2.2
  | markBufferClean i => exact h.markClean hc.1 hc.2
  | setSecondary i secondary => exact h.relabel hc

/-- The calls that a command makes: on single buffers, and sweeps whose cleanup callbacks make calls
of their own. -/
inductive DriveCall
  | buffer (call : BufferCall)
  | freeMultipleBuffers (flags : FmbFlags) (cleanup : ℕ → Bool × List BufferCall)

namespace DriveCall

/-- The callbacks as functions on the buffers. -/
def callback (cleanup : ℕ → Bool × List BufferCall) (i : ℕ) (b : Channels) : Bool × Channels :=
  ((cleanup i).1, (run BufferCall.step b (cleanup i).2).2)

def step (b : Channels) : DriveCall → Unit × Channels
  | buffer call => ((), (call.step b).2)
  | freeMultipleBuffers flags cleanup =>
    ((), (NoDiskEmu.freeMultipleBuffers flags (callback cleanup) b).state)

def Fits (b : Channels) : DriveCall → Prop
  | buffer call => call.Fits b
  | freeMultipleBuffers flags cleanup =>
    SweepMeets flags (callback cleanup)
      (fun i b => Meets BufferCall.step BufferCall.Fits b (cleanup i).2) (List.range b.count) false b

end DriveCall

theorem BufferCall.step_count (b : Channels) (c : BufferCall) : (c.step b).2.count = b.count := by
  cases c with
  | allocBuffer =>
    show b.allocBuffer.2.table.count = b.table.count
    rw [Channels.allocBuffer, Table.allocBuffer]
    cases hfree : b.table.firstFree with
    | none =>
      rw [Table.allocSystemBuffer_of_none hfree]
      rfl
    | some i =>
      rw [Table.allocSystemBuffer_of_some hfree]
      rfl
  | allocLinkedBuffers n =>
    have hlink : ∀ (l : List ℕ) (b : Channels) start,
        (l.foldl (Channels.linkBuffer n start) b).count = b.count := by
      intro l
      induction l with
      | nil => exact fun _ _ => rfl
      | cons k l ih =>
        intro b start
        rw [List.foldl_cons, ih]
        show (b.table.allocSpecificBuffer (start + k)).count = b.table.count
        rw [Table.allocSpecificBuffer]
        split <;> rfl
    show (b.allocLinkedBuffers n).2.count = b.count
    rw [Channels.allocLinkedBuffers]
    split
    · rfl
    · exact hlink _ b _
  | allocSystemBuffer =>
    show b.allocSystemBuffer.2.table.count = b.table.count
    rw [Channels.allocSystemBuffer]
    cases hfree : b.table.firstFree with
    | none =>
      rw [Table.allocSystemBuffer_of_none hfree]
      rfl
    | some i =>
      rw [Table.allocSystemBuffer_of_some hfree]
      rfl
  | freeBuffer i => exact Table.freeBuffer_count b.table i
  | markBufferDirty i =>
    show (b.table.markBufferDirty i).count = b.table.count
    rw [Table.markBufferDirty]
    split <;> rfl
  | markBufferClean i =>
    show (b.table.markBufferClean i).count = b.table.count
    rw [Table.markBufferClean]
    split <;> rfl
  | setSecondary i secondary => rfl

theorem DriveCall.ledger_step {b : Channels} (h : b.table.Ledger) {c : DriveCall} (hc : c.Fits b) :
    (c.step b).2.table.Ledger := by
  cases c with
  | buffer call => exact call.ledger_step h hc
  | freeMultipleBuffers flags cleanup =>
    -- the sweep frees buffers of the table, whose size the callbacks keep
    have hrule := sweep_rule (I := fun b' : Channels => b'.table.Ledger ∧ b'.count = b.count)
      (fun i b' hb' hmeets => ?_) (fun i hi b' hb' => ?_) ⟨h, rfl⟩ hc
    · exact hrule.1
    · have halways := always_of_step (P := BufferCall.Fits)
        (I := fun b' : Channels => b'.table.Ledger ∧ b'.count = b.count)
        (fun b' c hb' hc => ⟨c.ledger_step hb'.1 hc, (c.step_count b').trans hb'.2⟩) hb' hmeets
      exact halways.last
    · have hi' : i < b'.table.count := lt_of_lt_of_eq (List.mem_range.mp hi) hb'.2.symm
      exact ⟨hb'.1.free hi', (Table.freeBuffer_count b'.table i).trans hb'.2⟩

end NoDiskEmu
