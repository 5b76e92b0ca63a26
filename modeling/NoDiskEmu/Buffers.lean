import Mathlib.Data.List.Basic
import Mathlib.Data.Nat.Notation
import Mathlib.Logic.Function.Basic

/-! The table of data buffers of `buffers.c`.  A buffer is known by its place in the table; the
fields that only its user looks at belong to the user's module. -/

namespace NoDiskEmu

def BUFFER_SEC_SYSTEM : ℕ := 100
def BUFFER_SYS_BAM : ℕ := 101

/-- The fields of `buffer_t` that `buffers.c` decides on. -/
structure Buffer where
  data : ℕ → UInt8
  secondary : ℕ
  allocated : Bool
  dirty : Bool
  sticky : Bool

/-- `buffers`, with `CONFIG_BUFFER_COUNT` and the byte `active_buffers`.  The entry at `count` is the
one of the error channel. -/
structure Table where
  count : ℕ
  buffers : ℕ → Buffer
  activeBuffers : ℕ

namespace Table

def set (t : Table) (i : ℕ) (b : Buffer) : Table := { t with buffers := Function.update t.buffers i b }

/-- The first buffer that is not allocated. -/
def firstFree (t : Table) : Option ℕ := (List.range t.count).find? fun i => !(t.buffers i).allocated

/-- `alloc_specific_buffer`: everything but the data is cleared. -/
def allocSpecificBuffer (t : Table) (i : ℕ) : Table :=
  if (t.buffers i).allocated then t
  else t.set i ⟨(t.buffers i).data, BUFFER_SEC_SYSTEM, true, false, false⟩

/-- `alloc_system_buffer`; `none` stands for NULL. -/
def allocSystemBuffer (t : Table) : Option ℕ × Table :=
  match t.firstFree with
  | none => (none, t)
  | some i => (some i, t.allocSpecificBuffer i)

/-- `alloc_buffer`. -/
def allocBuffer (t : Table) : Option ℕ × Table :=
  match t.allocSystemBuffer with
  | (none, t) => (none, t)
  | (some i, t) =>
    (some i, { t.set i { t.buffers i with secondary := 0 } with
      activeBuffers := (t.activeBuffers + 1) % 256 })

/-- `stick_buffer`. -/
def stickBuffer (t : Table) (i : ℕ) : Table := t.set i { t.buffers i with sticky := true }

/-- `free_buffer`. -/
def freeBuffer (t : Table) (i : ℕ) : Table :=
  if (t.buffers i).secondary = 15 ∨ !(t.buffers i).allocated then t
  else
    let dirty := if (t.buffers i).dirty then 16 else 0
    let user := if (t.buffers i).secondary < BUFFER_SEC_SYSTEM then 1 else 0
    { t.set i { t.buffers i with allocated := false } with
      activeBuffers := (t.activeBuffers + 512 - dirty - user) % 256 }

/-- `mark_buffer_dirty`. -/
def markBufferDirty (t : Table) (i : ℕ) : Table :=
  if (t.buffers i).dirty then t
  else { t.set i { t.buffers i with dirty := true } with
    activeBuffers := (t.activeBuffers + 16) % 256 }

/-- `mark_buffer_clean`. -/
def markBufferClean (t : Table) (i : ℕ) : Table :=
  if (t.buffers i).dirty then
    { t.set i { t.buffers i with dirty := false } with
      activeBuffers := (t.activeBuffers + 256 - 16) % 256 }
  else t

/-- `check_free_buffers`. -/
def checkFreeBuffers (t : Table) : Bool := t.activeBuffers % 16 < t.count

/-- `get_dirty_buffer_count`. -/
def getDirtyBufferCount (t : Table) : ℕ := t.activeBuffers / 16

/-- `find_buffer`. -/
def findBuffer (t : Table) (secondary : ℕ) : Option ℕ :=
  (List.range (t.count + 1)).find? fun i =>
    (t.buffers i).allocated && (t.buffers i).secondary = secondary

@[simp] theorem set_count (t : Table) (i : ℕ) (b : Buffer) : (t.set i b).count = t.count := rfl

@[simp] theorem set_self (t : Table) (i : ℕ) (b : Buffer) : (t.set i b).buffers i = b :=
  Function.update_self ..

theorem set_of_ne (t : Table) {i j : ℕ} (b : Buffer) (h : j ≠ i) :
    (t.set i b).buffers j = t.buffers j := Function.update_of_ne h ..

theorem firstFree_spec {t : Table} {i : ℕ} (h : t.firstFree = some i) :
    i < t.count ∧ (t.buffers i).allocated = false := by
  have hmem := List.mem_of_find?_eq_some h
  have hfree := List.find?_some h
  exact ⟨List.mem_range.mp hmem, by simpa using hfree⟩

theorem allocSystemBuffer_of_none {t : Table} (h : t.firstFree = none) :
    t.allocSystemBuffer = (none, t) := by
  rw [allocSystemBuffer, h]

/-- A system buffer is a buffer that was free; nothing else changes. -/
theorem allocSystemBuffer_of_some {t : Table} {i : ℕ} (h : t.firstFree = some i) :
    t.allocSystemBuffer =
      (some i, t.set i ⟨(t.buffers i).data, BUFFER_SEC_SYSTEM, true, false, false⟩) := by
  rw [allocSystemBuffer, h]
  simp [allocSpecificBuffer, (firstFree_spec h).2]

@[simp] theorem markBufferDirty_count (t : Table) (i : ℕ) :
    (t.markBufferDirty i).count = t.count := by
  unfold markBufferDirty
  split <;> rfl

/-- Marking a buffer changes nothing but the mark. -/
theorem markBufferDirty_buffers (t : Table) (i j : ℕ) :
    ∃ dirty, (t.markBufferDirty i).buffers j = { t.buffers j with dirty } := by
  unfold markBufferDirty
  split
  · exact ⟨_, rfl⟩
  · by_cases h : j = i
    · subst h
      exact ⟨true, t.set_self j _⟩
    · exact ⟨_, t.set_of_ne _ h⟩

theorem findBuffer_some {t : Table} {sec i : ℕ} (h : t.findBuffer sec = some i) :
    i ≤ t.count ∧ (t.buffers i).allocated = true ∧ (t.buffers i).secondary = sec := by
  have hmem := List.mem_of_find?_eq_some h
  have hfound := List.find?_some h
  rw [List.mem_range] at hmem
  rw [Bool.and_eq_true, decide_eq_true_eq] at hfound
  exact ⟨Nat.le_of_lt_succ hmem, hfound⟩

theorem findBuffer_none {t : Table} {sec : ℕ} (h : t.findBuffer sec = none) {i : ℕ}
    (hi : i ≤ t.count) (hallocated : (t.buffers i).allocated = true) :
    (t.buffers i).secondary ≠ sec := by
  have hall := List.find?_eq_none.mp h i (List.mem_range.mpr (Nat.lt_succ_of_le hi))
  simpa [hallocated] using hall

/-- The only buffer with a secondary address is the one that is found. -/
theorem findBuffer_unique {t : Table} {sec i : ℕ} (hi : i ≤ t.count)
    (hallocated : (t.buffers i).allocated = true) (hsec : (t.buffers i).secondary = sec)
    (hunique : ∀ j ≤ t.count, (t.buffers j).allocated = true → (t.buffers j).secondary = sec →
      j = i) : t.findBuffer sec = some i := by
  cases hfind : t.findBuffer sec with
  | none => exact absurd hsec (findBuffer_none hfind hi hallocated)
  | some j =>
    obtain ⟨hj, hal, hs⟩ := findBuffer_some hfind
    rw [hunique j hj hal hs]

@[simp] theorem freeBuffer_count (t : Table) (i : ℕ) : (t.freeBuffer i).count = t.count := by
  unfold freeBuffer
  split <;> rfl

theorem freeBuffer_of_ne (t : Table) {i j : ℕ} (h : j ≠ i) :
    (t.freeBuffer i).buffers j = t.buffers j := by
  unfold freeBuffer
  split
  · rfl
  · exact t.set_of_ne _ h

theorem freeBuffer_self (t : Table) {i : ℕ} (h : (t.buffers i).secondary ≠ 15) :
    ((t.freeBuffer i).buffers i).allocated = false := by
  unfold freeBuffer
  split
  · next hfree => simpa [h] using hfree
  · exact congrArg Buffer.allocated (t.set_self i _)

/-- A buffer that is allocated after another one was freed was allocated before, as it is. -/
theorem freeBuffer_allocated {t : Table} {i j : ℕ}
    (h : ((t.freeBuffer i).buffers j).allocated = true) :
    (t.freeBuffer i).buffers j = t.buffers j := by
  unfold freeBuffer at h ⊢
  split
  · rfl
  · next hfree =>
    rw [if_neg hfree] at h
    by_cases hj : j = i
    · subst hj
      have hset : (({ t.buffers j with allocated := false } : Buffer)).allocated = true := by
        rw [← h]
        exact (congrArg Buffer.allocated (t.set_self j _)).symm
      cases hset
    · exact t.set_of_ne _ hj

end Table

/-- The flags of `free_multiple_buffers`. -/
structure FmbFlags where
  clean : Bool
  freeSystem : Bool
  freeSticky : Bool

def FMB_USER_CLEAN : FmbFlags := ⟨true, false, true⟩
def FMB_UNSTICKY : FmbFlags := ⟨false, true, false⟩

end NoDiskEmu
