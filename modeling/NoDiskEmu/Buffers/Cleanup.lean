import NoDiskEmu.Buffers

/-! The sweep of `free_multiple_buffers` over the table, with the cleanup callbacks that it makes. -/

namespace NoDiskEmu

/-- A state that the buffer table is a part of. -/
class HasTable (σ : Type*) where
  table : σ → Table
  setTable : σ → Table → σ

/-- The buffers that `flags` asks to free. -/
def Table.selected (t : Table) (flags : FmbFlags) (i : ℕ) : Bool :=
  (t.buffers i).allocated && (flags.freeSystem || (t.buffers i).secondary < BUFFER_SEC_SYSTEM) &&
    (flags.freeSticky || !(t.buffers i).sticky)

/-- What a sweep has done: its result, the cleanup callbacks it called with what each returned, the
buffers it passed to `free_buffer`, and the state it leaves. -/
structure Sweep (σ : Type*) where
  res : Bool
  cleaned : List (ℕ × Bool)
  freed : List ℕ
  state : σ

section

variable {σ : Type*} [HasTable σ] (flags : FmbFlags) (cleanup : ℕ → σ → Bool × σ)

def freeIn (s : σ) (i : ℕ) : σ := HasTable.setTable s ((HasTable.table s).freeBuffer i)

/-- The loop of `free_multiple_buffers` over the buffers `is`. `res || cleanup()` does not evaluate the
call once `res` is set. -/
def sweep : List ℕ → Bool → σ → Sweep σ
  | [], res, s => ⟨res, [], [], s⟩
  | i :: is, res, s =>
    if (HasTable.table s).selected flags i then
      if flags.clean && !res then
        let c := cleanup i s
        let r := sweep is c.1 (freeIn c.2 i)
        { r with cleaned := (i, c.1) :: r.cleaned, freed := i :: r.freed }
      else
        let r := sweep is res (freeIn s i)
        { r with freed := i :: r.freed }
    else sweep is res s

def freeMultipleBuffers (s : σ) : Sweep σ :=
  sweep flags cleanup (List.range (HasTable.table s).count) false s

/-- Every buffer that is freed was cleaned before, and the result tells whether a cleanup failed. -/
def Sweep.CleansAll (r : Sweep σ) : Prop :=
  r.cleaned.map Prod.fst = r.freed ∧ (r.res = true ↔ ∃ i, (i, true) ∈ r.cleaned)

/-- If a cleanup fails, there is no other buffer left to free. -/
def OnlyLastFails : List ℕ → σ → Prop
  | [], _ => True
  | i :: is, s =>
    if (HasTable.table s).selected flags i then
      let c := cleanup i s
      (c.1 = true → ∀ j ∈ is, (HasTable.table (freeIn c.2 i)).selected flags j = false) ∧
        OnlyLastFails is (freeIn c.2 i)
    else OnlyLastFails is s

end

section

variable {σ : Type*} [HasTable σ] {flags : FmbFlags} {cleanup : ℕ → σ → Bool × σ} {s : σ}

/-- Once a cleanup has failed, no other one is called. -/
theorem sweep_failed (is : List ℕ) (s : σ) :
    (sweep flags cleanup is true s).cleaned = [] ∧ (sweep flags cleanup is true s).res = true := by
  induction is generalizing s with
  | nil => exact ⟨rfl, rfl⟩
  | cons i is ih =>
    rw [sweep]
    split
    · rw [if_neg (by simp)]
      exact ih _
    · exact ih s

theorem sweep_freed_eq_nil {res : Bool} (is : List ℕ) :
    (sweep flags cleanup is res s).freed = [] ↔
      ∀ i ∈ is, (HasTable.table s).selected flags i = false := by
  induction is with
  | nil => simp [sweep]
  | cons i is ih =>
    rw [sweep]
    split
    · next hsel =>
      constructor
      · intro h
        split at h <;> cases h
      · intro h
        exact absurd hsel (by simp [h i (by simp)])
    · next hsel =>
      rw [ih]
      simpa using fun _ => hsel

theorem onlyLastFails_of_none {is : List ℕ}
    (h : ∀ i ∈ is, (HasTable.table s).selected flags i = false) : OnlyLastFails flags cleanup is s := by
  induction is with
  | nil => trivial
  | cons i is ih =>
    rw [OnlyLastFails, if_neg (by simp [h i (by simp)])]
    exact ih fun j hj => h j (by simp [hj])

/-- The result of the sweep tells whether one of the callbacks that were called failed. -/
theorem sweep_res (is : List ℕ) (s : σ) :
    (sweep flags cleanup is false s).res = true ↔
      ∃ i, (i, true) ∈ (sweep flags cleanup is false s).cleaned := by
  induction is generalizing s with
  | nil => simp [sweep]
  | cons i is ih =>
    rw [sweep]
    split
    · split
      · generalize cleanup i s = c
        obtain ⟨_ | _, s'⟩ := c
        · simpa using ih _
        · simp [(sweep_failed is _).2]
      · exact ih _
    · exact ih s

theorem sweep_cleaned_iff (hclean : flags.clean = true) (is : List ℕ) (s : σ) :
    (sweep flags cleanup is false s).cleaned.map Prod.fst = (sweep flags cleanup is false s).freed ↔
      OnlyLastFails flags cleanup is s := by
  induction is generalizing s with
  | nil => simp [sweep, OnlyLastFails]
  | cons i is ih =>
    rw [sweep, OnlyLastFails]
    split
    · rw [if_pos (by simp [hclean])]
      generalize cleanup i s = c
      obtain ⟨_ | _, s'⟩ := c
      · rw [List.map_cons, List.cons.injEq, ih]
        simp
      · show i :: _ = i :: _ ↔ _
        rw [(sweep_failed is _).1, List.cons.injEq, List.map_nil, eq_comm (a := []), sweep_freed_eq_nil]
        constructor
        · rintro ⟨-, hnone⟩
          exact ⟨fun _ => hnone, onlyLastFails_of_none hnone⟩
        · rintro ⟨hnone, -⟩
          exact ⟨rfl, hnone rfl⟩
    · exact ih s

end

/-- Every cleanup that the sweep calls is called in a state that meets `Q`. -/
def SweepMeets {σ : Type*} [HasTable σ] (flags : FmbFlags) (cleanup : ℕ → σ → Bool × σ)
    (Q : ℕ → σ → Prop) : List ℕ → Bool → σ → Prop
  | [], _, _ => True
  | i :: is, res, s =>
    if (HasTable.table s).selected flags i then
      if flags.clean && !res then
        Q i s ∧ SweepMeets flags cleanup Q is (cleanup i s).1 (freeIn (cleanup i s).2 i)
      else SweepMeets flags cleanup Q is res (freeIn s i)
    else SweepMeets flags cleanup Q is res s

/-- What holds at every call of a callback holds at the calls of a sweep. -/
theorem sweepMeets_of_forall {σ : Type*} [HasTable σ] {flags : FmbFlags} {cleanup : ℕ → σ → Bool × σ}
    {Q : ℕ → σ → Prop} (h : ∀ i s, Q i s) (is : List ℕ) (res : Bool) (s : σ) :
    SweepMeets flags cleanup Q is res s := by
  induction is generalizing res s with
  | nil => trivial
  | cons i is ih =>
    rw [SweepMeets]
    split
    · split
      · exact ⟨h i s, ih _ _⟩
      · exact ih _ _
    · exact ih _ _

/-- What the cleanups and the freeing of a buffer preserve, a sweep preserves. -/
theorem sweep_rule {σ : Type*} [HasTable σ] {flags : FmbFlags} {cleanup : ℕ → σ → Bool × σ}
    {I : σ → Prop} {Q : ℕ → σ → Prop} (hclean : ∀ i s, I s → Q i s → I (cleanup i s).2)
    {is : List ℕ} (hfree : ∀ i ∈ is, ∀ s, I s → I (freeIn s i)) {res : Bool} {s : σ} (hs : I s)
    (hmeets : SweepMeets flags cleanup Q is res s) : I (sweep flags cleanup is res s).state := by
  induction is generalizing res s with
  | nil => exact hs
  | cons i is ih =>
    have hrest : ∀ j ∈ is, ∀ s, I s → I (freeIn s j) := fun j hj => hfree j (by simp [hj])
    have hhead : ∀ s, I s → I (freeIn s i) := hfree i (by simp)
    rw [SweepMeets] at hmeets
    rw [sweep]
    split
    · next hsel =>
      rw [if_pos hsel] at hmeets
      split
      · next hcall =>
        rw [if_pos hcall] at hmeets
        exact ih hrest (hhead _ (hclean i s hs hmeets.1)) hmeets.2
      · next hcall =>
        rw [if_neg hcall] at hmeets
        exact ih hrest (hhead _ hs) hmeets
    · next hsel =>
      rw [if_neg hsel] at hmeets
      exact ih hrest hs hmeets

/-- A sweep with `FMB_CLEAN` cleans every buffer that it frees exactly if no cleanup fails but that of
the last one. -/
theorem cleansAll_iff {σ : Type*} [HasTable σ] (freeSystem freeSticky : Bool)
    (cleanup : ℕ → σ → Bool × σ) (s : σ) :
    (freeMultipleBuffers ⟨true, freeSystem, freeSticky⟩ cleanup s).CleansAll ↔
      OnlyLastFails ⟨true, freeSystem, freeSticky⟩ cleanup
        (List.range (HasTable.table s).count) s := by
  rw [Sweep.CleansAll, freeMultipleBuffers, sweep_cleaned_iff rfl]
  exact and_iff_left (sweep_res _ s)

instance : HasTable Table := ⟨id, fun _ t => t⟩

/-- Two channels with a file each, open for writing. -/
def twoFiles : Table where
  count := 2
  buffers i := ⟨fun _ => 0, if i = 2 then 15 else i + 2, true, true, true⟩
  activeBuffers := 34

/-- The cleanup of the first one fails, and the second one is freed without its cleanup. -/
theorem twoFiles_not_cleaned :
    ¬(freeMultipleBuffers FMB_USER_CLEAN (fun i t => (i == 0, t)) twoFiles).CleansAll :=
  fun h => absurd h.1 (by decide)

end NoDiskEmu
