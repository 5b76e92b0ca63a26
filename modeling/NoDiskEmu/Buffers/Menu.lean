import NoDiskEmu.Buffers.Ledger

/-! `menu_browse_files`, which takes buffers for a directory, gives them back without `free_buffer` and
restores `active_buffers` to what it was when the menu was entered. -/

namespace NoDiskEmu

open Library Library.Run

/-- One pass of `menu_browse_files` from its label `start` on, as the directory and the keys decide:
whether `opendir` fails, how many blocks of entries follow the first one, and the choice at the end. A
choice is the abort, or a `CD` command with the calls that it makes and whether it fails. -/
structure MenuPass where
  opendirFails : Bool
  blocks : ℕ
  choice : Option (List DriveCall × Bool)

namespace Channels

/-- The blocks of entries after `cur`, each linked to the one before. Fails if a buffer is missing. -/
def allocBlocks : ℕ → ℕ → Channels → Bool × Channels
  | 0, _, b => (true, b)
  | n + 1, cur, b =>
    match b.allocSystemBuffer with
    | (none, b) => (false, b)
    | (some i, b) => allocBlocks n i (b.setChan cur { b.chan cur with next := some i })

/-- `allocated = 0` along the `next` pointers from buffer `i` on. A walk over more buffers than there
are has come back to one and does not end. -/
def release : ℕ → ℕ → Channels → Channels
  | 0, _, b => b
  | fuel + 1, i, b =>
    let b' := { b with table := b.table.set i { b.table.buffers i with allocated := false } }
    match (b.chan i).next with
    | none => b'
    | some j => release fuel j b'

/-- The part of a pass after the directory is opened: the state when the label `reread` is reached, and
whether it was reached through `cleanup`. -/
def browse (p : MenuPass) (first : ℕ) (b : Channels) : Bool × Channels :=
  match b.allocBlocks p.blocks first with
  | (false, b) => (true, b)
  | (true, b) =>
    match p.choice with
    | none => (true, b)
    | some (calls, failed) => (failed, (run DriveCall.step b calls).2)

/-- The code at `reread`. -/
def reread (b : Channels) (save buf tbl first : ℕ) : Channels :=
  let b := release (b.count + 1) first (release (b.count + 1) tbl (b.freeBuffer buf))
  { b with table := { b.table with activeBuffers := save } }

/-- One pass, with the value of `save_active_buffers`: whether the next one follows, and the buffers
after it. `dirBuffers` is `CONFIG_DIR_BUFFERS`. -/
def menuPass (dirBuffers save : ℕ) (p : MenuPass) (b : Channels) : Bool × Channels :=
  match b.allocSystemBuffer with
  | (none, b) => (false, b)
  | (some buf, b) =>
    match b.allocLinkedBuffers dirBuffers with
    | (none, b) => (false, b)
    | (some tbl, b) =>
      match b.allocSystemBuffer with
      | (none, b) => (false, b)
      | (some first, b) =>
        if p.opendirFails then (false, b)
        else
          let r := b.browse p first
          (!r.1, r.2.reread save buf tbl first)

/-- `menu_browse_files`: passes until one is the last. -/
def menuPasses (dirBuffers save : ℕ) : List MenuPass → Channels → Channels
  | [], b => b
  | p :: ps, b =>
    let r := b.menuPass dirBuffers save p
    if r.1 then menuPasses dirBuffers save ps r.2 else r.2

def menuBrowseFiles (dirBuffers : ℕ) (passes : List MenuPass) (b : Channels) : Channels :=
  menuPasses dirBuffers b.table.activeBuffers passes b

variable {b b₀ b' : Channels}

/-- A walk clears the flag of some buffers and changes nothing else. -/
theorem release_frame (fuel x : ℕ) (b : Channels) :
    (release fuel x b).count = b.count ∧ (release fuel x b).chan = b.chan ∧
      ∀ i, (release fuel x b).table.buffers i = b.table.buffers i ∨
        (release fuel x b).table.buffers i = { b.table.buffers i with allocated := false } := by
  induction fuel generalizing x b with
  | zero => exact ⟨rfl, rfl, fun _ => .inl rfl⟩
  | succ fuel ih =>
    have hset : ∀ i, (b.table.set x { b.table.buffers x with allocated := false }).buffers i =
        b.table.buffers i ∨ (b.table.set x { b.table.buffers x with allocated := false }).buffers i =
          { b.table.buffers i with allocated := false } := by
      intro i
      by_cases hi : i = x
      · subst hi
        exact .inr (Table.set_self ..)
      · exact .inl (Table.set_of_ne _ _ hi)
    rw [release]
    cases (b.chan x).next with
    | none => exact ⟨rfl, rfl, hset⟩
    | some j =>
      obtain ⟨hcount, hchan, hbuffers⟩ := ih j
        { b with table := b.table.set x { b.table.buffers x with allocated := false } }
      refine ⟨hcount, hchan, fun i => ?_⟩
      rcases hbuffers i with h | h <;> rcases hset i with h' | h'
      · exact .inl (h.trans h')
      · exact .inr (h.trans h')
      · exact .inr (h.trans (by rw [h']))
      · exact .inr (h.trans (by rw [h']))

/-- A walk that stays in `S` leaves the other buffers alone. -/
theorem release_outside {S : ℕ → Prop} {x : ℕ} (hx : S x)
    (hS : ∀ i, S i → ∀ j, (b.chan i).next = some j → S j) (fuel : ℕ) {i : ℕ} (hi : ¬S i) :
    (release fuel x b).table.buffers i = b.table.buffers i := by
  induction fuel generalizing x b with
  | zero => rfl
  | succ fuel ih =>
    have hne : i ≠ x := fun heq => hi (heq ▸ hx)
    rw [release]
    cases hnext : (b.chan x).next with
    | none => exact Table.set_of_ne _ _ hne
    | some j =>
      exact (ih (b := { b with table := b.table.set x { b.table.buffers x with allocated := false } })
        (hS x hx j hnext) hS).trans (Table.set_of_ne _ _ hne)

/-- A walk along `n` buffers in a row, each linked to the next, clears all of them. -/
theorem release_row (n : ℕ) {x f : ℕ} (hfuel : n ≤ f)
    (hnext : ∀ k, k + 1 < n → (b.chan (x + k)).next = some (x + k + 1)) {k : ℕ} (hk : k < n) :
    ((release f x b).table.buffers (x + k)).allocated = false := by
  induction n generalizing x f b k with
  | zero => omega
  | succ n ih =>
    obtain ⟨f, rfl⟩ : ∃ f', f = f' + 1 := ⟨f - 1, by omega⟩
    rw [release]
    have hself : ((b.table.set x { b.table.buffers x with allocated := false }).buffers x).allocated =
        false := by rw [Table.set_self]
    cases hx : (b.chan x).next with
    | none =>
      have hzero : k = 0 := by
        by_contra hne
        have hsome := hnext 0 (by omega)
        rw [Nat.add_zero, hx] at hsome
        cases hsome
      subst hzero
      exact hself
    | some j =>
      by_cases hzero : k = 0
      · subst hzero
        rcases (release_frame f j
          { b with table := b.table.set x { b.table.buffers x with allocated := false } }).2.2 x
          with h | h
        · exact (congrArg Buffer.allocated h).trans hself
        · exact congrArg Buffer.allocated h
      · have hj : j = x + 1 := by
          have hsome := hnext 0 (by omega)
          rw [Nat.add_zero, hx] at hsome
          exact Option.some.inj hsome
        subst hj
        have hrest := ih (x := x + 1) (f := f)
          (b := { b with table := b.table.set x { b.table.buffers x with allocated := false } })
          (k := k - 1) (by omega) (fun k hk => by
            have h := hnext (k + 1) (by omega)
            rwa [show x + (k + 1) = x + 1 + k by omega] at h) (by omega)
        rwa [show x + 1 + (k - 1) = x + k by omega] at hrest

/-- The buffers that a pass has taken since `b₀`: the `n` buffers of the table from `tbl` on, and the
system buffers in `S`, whose `next` pointers stay in `S`. -/
structure Browsing (b₀ : Channels) (tbl n : ℕ) (S : ℕ → Prop) (b : Channels) : Prop where
  count : b.count = b₀.count
  old : ∀ i, (b₀.table.buffers i).allocated = true →
    ∃ data, b.table.buffers i = { b₀.table.buffers i with data }
  fresh : ∀ i, (b₀.table.buffers i).allocated = false → i < tbl ∨ tbl + n ≤ i →
    b.table.userBuffer i = false ∧ b.table.dirtyBuffer i = false
  table : ∀ k < n, (b₀.table.buffers (tbl + k)).allocated = false ∧
    (b.table.buffers (tbl + k)).allocated = true
  links : ∀ k, k + 1 < n → (b.chan (tbl + k)).next = some (tbl + k + 1)
  ends : ∀ k < n, k + 1 = n → (b.chan (tbl + k)).next = none
  blocks : ∀ i, S i → (b₀.table.buffers i).allocated = false ∧ (b.table.buffers i).allocated = true ∧
    (i < tbl ∨ tbl + n ≤ i) ∧ ∀ j, (b.chan i).next = some j → S j

variable {tbl n : ℕ} {S : ℕ → Prop}

/-- Another system buffer. -/
theorem Browsing.alloc (h : Browsing b₀ tbl n S b) {i : ℕ}
    (hfree : (b.table.buffers i).allocated = false) :
    Browsing b₀ tbl n (fun j => S j ∨ j = i) (b.takeSystem i) := by
  have hne : ∀ j, (b.table.buffers j).allocated = true → j ≠ i := by
    rintro j hj rfl
    rw [hfree] at hj
    cases hj
  have hold : (b₀.table.buffers i).allocated = false := by
    by_contra hne'
    have halloc : (b₀.table.buffers i).allocated = true := by simpa using hne'
    obtain ⟨data, heq⟩ := h.old i halloc
    rw [heq, halloc] at hfree
    cases hfree
  have htbl : i < tbl ∨ tbl + n ≤ i := by
    by_contra hin
    have hk := (h.table (i - tbl) (by omega)).2
    rw [show tbl + (i - tbl) = i by omega, hfree] at hk
    cases hk
  refine ⟨h.count, fun j hj => ?_, fun j hj hjt => ?_, fun k hk => ?_, fun k hk => ?_,
    fun k hk hlast => ?_, fun j hj => ?_⟩
  · have hji : j ≠ i := by
      rintro rfl
      rw [hold] at hj
      cases hj
    obtain ⟨data, heq⟩ := h.old j hj
    exact ⟨data, (Table.set_of_ne _ _ hji).trans heq⟩
  · by_cases hji : j = i
    · subst hji
      show ((Table.set ..).userBuffer j = false) ∧ (Table.set ..).dirtyBuffer j = false
      rw [Table.userBuffer, Table.dirtyBuffer, Table.set_self]
      exact ⟨rfl, rfl⟩
    · show ((Table.set ..).userBuffer j = false) ∧ (Table.set ..).dirtyBuffer j = false
      rw [Table.userBuffer, Table.dirtyBuffer, Table.set_of_ne _ _ hji]
      exact h.fresh j hj hjt
  · have halloc := (h.table k hk).2
    exact ⟨(h.table k hk).1, (congrArg Buffer.allocated (Table.set_of_ne _ _ (hne _ halloc))).trans halloc⟩
  · exact (congrArg Chan.next (Function.update_of_ne (hne _ (h.table k (by omega)).2) ..)).trans
      (h.links k hk)
  · exact (congrArg Chan.next (Function.update_of_ne (hne _ (h.table k hk).2) ..)).trans
      (h.ends k hk hlast)
  · rcases hj with hj | rfl
    · obtain ⟨h1, h2, h3, h4⟩ := h.blocks j hj
      have hji := hne j h2
      refine ⟨h1, (congrArg Buffer.allocated (Table.set_of_ne _ _ hji)).trans h2, h3, fun k hk => ?_⟩
      exact .inl (h4 k ((congrArg Chan.next (Function.update_of_ne hji ..)).symm.trans hk))
    · refine ⟨hold, congrArg Buffer.allocated (Table.set_self ..), htbl, fun k hk => ?_⟩
      have hnone : ((Function.update b.chan j Chan.cleared) j).next = some k := hk
      rw [Function.update_self] at hnone
      cases hnone

/-- A message on the error channel. -/
theorem Browsing.setError (h : Browsing b₀ tbl n S b) (msg : List UInt8) :
    Browsing b₀ tbl n S (b.setError msg) := by
  refine ⟨h.count, fun i hi => ?_, fun i hi hit => ?_, fun k hk => ?_, fun k hk => ?_, fun k hk hlast => ?_,
    fun i hi => ?_⟩
  · obtain ⟨data, heq⟩ := h.old i hi
    obtain ⟨data', heq'⟩ := b.setError_buffers msg i
    exact ⟨data', by rw [heq', heq]⟩
  · obtain ⟨data, heq⟩ := b.setError_buffers msg i
    rw [Table.userBuffer, Table.dirtyBuffer, heq]
    exact h.fresh i hi hit
  · rw [setError_allocated]
    exact h.table k hk
  · rw [setError_next]
    exact h.links k hk
  · rw [setError_next]
    exact h.ends k hk hlast
  · rw [setError_allocated]
    obtain ⟨h1, h2, h3, h4⟩ := h.blocks i hi
    exact ⟨h1, h2, h3, fun j hj => h4 j ((b.setError_next msg i).symm.trans hj)⟩

/-- A block is linked to the one before. -/
theorem Browsing.link (h : Browsing b₀ tbl n S b) {i j : ℕ} (hi : S i) (hj : S j) :
    Browsing b₀ tbl n S (b.setChan i { b.chan i with next := some j }) := by
  obtain ⟨-, -, hit, -⟩ := h.blocks i hi
  refine ⟨h.count, h.old, h.fresh, h.table, fun k hk => ?_, fun k hk hlast => ?_, fun x hx => ?_⟩
  · exact (congrArg Chan.next (Function.update_of_ne (by omega) ..)).trans (h.links k hk)
  · exact (congrArg Chan.next (Function.update_of_ne (by omega) ..)).trans (h.ends k hk hlast)
  · obtain ⟨h1, h2, h3, h4⟩ := h.blocks x hx
    refine ⟨h1, h2, h3, fun k hk => ?_⟩
    by_cases hxi : x = i
    · subst hxi
      have hself : ((Function.update b.chan x { b.chan x with next := some j }) x).next = some k := hk
      rw [Function.update_self] at hself
      exact Option.some.inj hself ▸ hj
    · exact h4 k ((congrArg Chan.next (Function.update_of_ne hxi ..)).symm.trans hk)

theorem Browsing.allocBlocks (m : ℕ) {cur : ℕ} (h : Browsing b₀ tbl n S b) (hcur : S cur) :
    ∃ S', (∀ i, S i → S' i) ∧ Browsing b₀ tbl n S' (b.allocBlocks m cur).2 := by
  induction m generalizing b cur S with
  | zero => exact ⟨S, fun _ => id, h⟩
  | succ m ih =>
    rw [Channels.allocBlocks]
    rcases allocSystemBuffer_cases b with heq | ⟨i, hi, hfree, heq⟩
    · rw [heq]
      exact ⟨S, fun _ => id, h.setError _⟩
    · rw [heq]
      obtain ⟨S', hS, hb⟩ := ih ((h.alloc hfree).link (.inl hcur) (.inr rfl)) (.inr rfl)
      exact ⟨S', fun j hj => hS j (.inl hj), hb⟩

/-- What is counted after the buffers of a pass are given back. -/
theorem Browsing.reread (h : Browsing b₀ tbl n S b) (htbl : tbl + n ≤ b₀.count) (hn : 0 < n)
    {buf first : ℕ} (hbuf : (b₀.table.buffers buf).allocated = false)
    (hbuft : buf < tbl ∨ tbl + n ≤ buf) (hfirst : S first) (save : ℕ) :
    (b.reread save buf tbl first).count = b₀.count ∧
      (b.reread save buf tbl first).table.activeBuffers = save ∧
      ∀ i, (b.reread save buf tbl first).table.userBuffer i = b₀.table.userBuffer i ∧
        (b.reread save buf tbl first).table.dirtyBuffer i = b₀.table.dirtyBuffer i := by
  set b₁ := b.freeBuffer buf with hb₁
  set b₂ := release (b.count + 1) tbl b₁ with hb₂
  set b₃ := release (b.count + 1) first b₂ with hb₃
  have hchan₁ : b₁.chan = b.chan := rfl
  have hfree₁ : ∀ i, i ≠ buf → b₁.table.buffers i = b.table.buffers i :=
    fun i hi => Table.freeBuffer_of_ne _ hi
  obtain ⟨hcount₂, hchan₂, hframe₂⟩ := release_frame (b.count + 1) tbl b₁
  obtain ⟨hcount₃, hchan₃, hframe₃⟩ := release_frame (b.count + 1) first b₂
  have hcount : b₃.count = b₀.count := by
    rw [hb₃, hcount₃, hb₂, hcount₂]
    exact (Table.freeBuffer_count _ _).trans h.count
  -- buffers that were in use before the pass are not on either walk
  have hold : ∀ i, (b₀.table.buffers i).allocated = true →
      ∃ data, b₃.table.buffers i = { b₀.table.buffers i with data } := by
    intro i hi
    have hibuf : i ≠ buf := by
      rintro rfl
      rw [hbuf] at hi
      cases hi
    have h2 : b₂.table.buffers i = b₁.table.buffers i := by
      refine release_outside (S := fun j => tbl ≤ j ∧ j < tbl + n) ⟨Nat.le_refl _, by omega⟩
        (fun j hj k hk => ?_) _ (fun hin => ?_)
      · rw [hchan₁] at hk
        by_cases hlast : j - tbl + 1 < n
        · have hlink := h.links (j - tbl) hlast
          rw [show tbl + (j - tbl) = j by omega, hk] at hlink
          have := Option.some.inj hlink
          omega
        · have hend := h.ends (j - tbl) (by omega) (by omega)
          rw [show tbl + (j - tbl) = j by omega, hk] at hend
          cases hend
      · have hfree := (h.table (i - tbl) (by omega)).1
        rw [show tbl + (i - tbl) = i by omega, hi] at hfree
        cases hfree
    have h3 : b₃.table.buffers i = b₂.table.buffers i := by
      refine release_outside (S := S) hfirst (fun j hj k hk => ?_) _ (fun hin => ?_)
      · rw [hb₂, hchan₂, hchan₁] at hk
        exact (h.blocks j hj).2.2.2 k hk
      · have hfree := (h.blocks i hin).1
        rw [hi] at hfree
        cases hfree
    obtain ⟨data, heq⟩ := h.old i hi
    exact ⟨data, by rw [h3, h2, hfree₁ i hibuf, heq]⟩
  -- of those that the pass has taken, none is counted
  have hnew : ∀ i, (b₀.table.buffers i).allocated = false →
      b₃.table.userBuffer i = false ∧ b₃.table.dirtyBuffer i = false := by
    intro i hi
    have hcleared : (b₂.table.buffers i).allocated = false ∨
        (b₂.table.userBuffer i = false ∧ b₂.table.dirtyBuffer i = false) := by
      by_cases hin : tbl ≤ i ∧ i < tbl + n
      · left
        have hrow := release_row (b := b₁) (x := tbl) n (f := b.count + 1)
          (by have := h.count; omega) (fun k hk => (hchan₁ ▸ h.links k hk)) (k := i - tbl) (by omega)
        rwa [show tbl + (i - tbl) = i by omega] at hrow
      · have hfresh := h.fresh i hi (by omega)
        have hb : (b₁.table.buffers i).allocated = false ∨ b₁.table.buffers i = b.table.buffers i := by
          by_cases hib : i = buf
          · subst hib
            by_cases hsec : (b.table.buffers i).secondary = 15
            · right
              show (b.table.freeBuffer i).buffers i = b.table.buffers i
              rw [Table.freeBuffer, if_pos (.inl hsec)]
            · exact .inl (Table.freeBuffer_self _ hsec)
          · exact .inr (hfree₁ i hib)
        rcases hb with hb | hb <;> rcases hframe₂ i with h2 | h2
        · exact .inl ((congrArg Buffer.allocated h2).trans hb)
        · exact .inl (congrArg Buffer.allocated h2)
        · right
          rw [Table.userBuffer, Table.dirtyBuffer, h2, hb]
          exact hfresh
        · exact .inl (congrArg Buffer.allocated h2)
    rcases hframe₃ i with h3 | h3
    · rcases hcleared with hc | hc
      · exact Table.not_counted_of_free ((congrArg Buffer.allocated h3).trans hc)
      · rw [Table.userBuffer, Table.dirtyBuffer, h3]
        exact hc
    · exact Table.not_counted_of_free (congrArg Buffer.allocated h3)
  refine ⟨hcount, rfl, fun i => ?_⟩
  show b₃.table.userBuffer i = _ ∧ b₃.table.dirtyBuffer i = _
  cases hi : (b₀.table.buffers i).allocated with
  | true =>
    obtain ⟨data, heq⟩ := hold i hi
    rw [Table.userBuffer, Table.dirtyBuffer, heq]
    exact ⟨rfl, rfl⟩
  | false =>
    rw [(hnew i hi).1, (hnew i hi).2, (Table.not_counted_of_free hi).1,
      (Table.not_counted_of_free hi).2]
    exact ⟨rfl, rfl⟩

/-- The buffers when the choice of a pass is made, if it comes to that. -/
def atChoice (dirBuffers : ℕ) (p : MenuPass) (b : Channels) : Option Channels :=
  match b.allocSystemBuffer with
  | (none, _) => none
  | (some _, b) =>
    match b.allocLinkedBuffers dirBuffers with
    | (none, _) => none
    | (some _, b) =>
      match b.allocSystemBuffer with
      | (none, _) => none
      | (some first, b) =>
        if p.opendirFails then none
        else match b.allocBlocks p.blocks first with
          | (false, _) => none
          | (true, b) => some b

/-- There is room for the table of a pass, and the command of its choice leaves the buffers as they
are, or finds none of them counted when the pass starts and leaves none counted. -/
def PassFits (dirBuffers : ℕ) (p : MenuPass) (b : Channels) : Prop :=
  b.table.users + dirBuffers < 16 ∧
    ∀ b' calls failed, b.atChoice dirBuffers p = some b' → p.choice = some (calls, failed) →
      let r := (run DriveCall.step b' calls).2
      r.table.count = b'.table.count ∧ (r.table.buffers = b'.table.buffers ∧ r.chan = b'.chan ∨
        (b.table.users = 0 ∧ b.table.dirties = 0 ∧ r.table.users = 0 ∧ r.table.dirties = 0))

def PassesFit (dirBuffers save : ℕ) : List MenuPass → Channels → Prop
  | [], _ => True
  | p :: ps, b => b.PassFits dirBuffers p ∧
      ((b.menuPass dirBuffers save p).1 = true →
        PassesFit dirBuffers save ps (b.menuPass dirBuffers save p).2)

/-- Where nothing is counted, nothing is counted after the buffers of a pass are given back. -/
theorem reread_uncounted (b : Channels) (save buf tbl first : ℕ) :
    (b.reread save buf tbl first).count = b.count ∧
      (b.reread save buf tbl first).table.activeBuffers = save ∧
      (b.reread save buf tbl first).table.users ≤ b.table.users ∧
      (b.reread save buf tbl first).table.dirties ≤ b.table.dirties := by
  obtain ⟨hcount₂, -, hframe₂⟩ := release_frame (b.count + 1) tbl (b.freeBuffer buf)
  obtain ⟨hcount₃, -, hframe₃⟩ := release_frame (b.count + 1) first
    (release (b.count + 1) tbl (b.freeBuffer buf))
  set b₃ := release (b.count + 1) first (release (b.count + 1) tbl (b.freeBuffer buf)) with hb₃
  have hcount : b₃.table.count = b.table.count :=
    hcount₃.trans (hcount₂.trans (Table.freeBuffer_count _ _))
  have hkeep : ∀ i, (b₃.table.buffers i).allocated = false ∨ b₃.table.buffers i = b.table.buffers i := by
    intro i
    rcases hframe₃ i with h3 | h3
    · rcases hframe₂ i with h2 | h2
      · cases halloc : ((b.freeBuffer buf).table.buffers i).allocated with
        | false => exact .inl ((congrArg Buffer.allocated (h3.trans h2)).trans halloc)
        | true => exact .inr ((h3.trans h2).trans (Table.freeBuffer_allocated halloc))
      · exact .inl (congrArg Buffer.allocated (h3.trans h2))
    · exact .inl (congrArg Buffer.allocated h3)
  refine ⟨hcount, rfl, ?_, ?_⟩
  · show Tally.tally b₃.table.count b₃.table.userBuffer ≤ _
    rw [hcount]
    refine Tally.tally_mono fun i _ hi => ?_
    rcases hkeep i with h | h
    · rw [(Table.not_counted_of_free h).1] at hi
      cases hi
    · rwa [Table.userBuffer, h] at hi
  · show Tally.tally b₃.table.count b₃.table.dirtyBuffer ≤ _
    rw [hcount]
    refine Tally.tally_mono fun i _ hi => ?_
    rcases hkeep i with h | h
    · rw [(Table.not_counted_of_free h).2] at hi
      cases hi
    · rwa [Table.dirtyBuffer, h] at hi

/-- The table of a pass, in buffers that were free. -/
theorem browsing_linked {start : ℕ}
    (hfree : ∀ k < n, (b.table.buffers (start + k)).allocated = false)
    (hold : ∀ i, (b₀.table.buffers i).allocated = true → b.table.buffers i = b₀.table.buffers i)
    (hfresh : ∀ i, (b₀.table.buffers i).allocated = false →
      b.table.userBuffer i = false ∧ b.table.dirtyBuffer i = false)
    (hcount : b.count = b₀.count) :
    Browsing b₀ start n (fun _ => False) ((List.range n).foldl (linkBuffer n start) b) := by
  have hlinked := linked_foldl (n := n) n hfree
  have hfree₀ : ∀ k < n, (b₀.table.buffers (start + k)).allocated = false := by
    intro k hk
    by_contra hne
    have halloc : (b₀.table.buffers (start + k)).allocated = true := by simpa using hne
    have hk' := hfree k hk
    rw [hold _ halloc, halloc] at hk'
    cases hk'
  refine ⟨hlinked.count.trans hcount, fun i hi => ?_, fun i hi hit => ?_, fun k hk => ⟨hfree₀ k hk, ?_⟩,
    fun k hk => ?_, fun k hk hlast => ?_, fun _ h => h.elim⟩
  · have hit : i < start ∨ start + n ≤ i := by
      by_contra hin
      have hk := hfree₀ (i - start) (by omega)
      rw [show start + (i - start) = i by omega, hi] at hk
      cases hk
    exact ⟨_, by rw [(hlinked.others i hit).1, hold i hi]⟩
  · rw [Table.userBuffer, Table.dirtyBuffer, (hlinked.others i hit).1]
    exact hfresh i hi
  · rw [hlinked.buffer k hk]
  · rw [hlinked.chan k (by omega), if_pos hk]
  · rw [hlinked.chan k hk, if_neg (by omega)]

theorem users_takeSystem {i : ℕ} (hi : i < b.count) (hfree : (b.table.buffers i).allocated = false) :
    (b.takeSystem i).table.users = b.table.users := by
  have husers := Table.users_set hi
    ⟨(b.table.buffers i).data, BUFFER_SEC_SYSTEM, true, false, false⟩
  rwa [(Table.not_counted_of_free hfree).1] at husers

theorem Browsing.congr (h : Browsing b₀ tbl n S b) (hcount : b'.table.count = b.table.count)
    (hbuffers : b'.table.buffers = b.table.buffers) (hchan : b'.chan = b.chan) :
    Browsing b₀ tbl n S b' := by
  have huser : b'.table.userBuffer = b.table.userBuffer := by
    funext i
    rw [Table.userBuffer, hbuffers, Table.userBuffer]
  have hdirty : b'.table.dirtyBuffer = b.table.dirtyBuffer := by
    funext i
    rw [Table.dirtyBuffer, hbuffers, Table.dirtyBuffer]
  refine ⟨hcount.trans h.count, ?_, ?_, ?_, ?_, ?_, ?_⟩
  · rw [hbuffers]
    exact h.old
  · rw [huser, hdirty]
    exact h.fresh
  · rw [hbuffers]
    exact h.table
  · rw [hchan]
    exact h.links
  · rw [hchan]
    exact h.ends
  · rw [hbuffers, hchan]
    exact h.blocks

/-- The end of a pass that has its buffers. -/
theorem ledger_browse {p : MenuPass} {buf first save : ℕ} (h : b₀.table.Ledger)
    (hactive : b₀.table.activeBuffers = save) (hb : Browsing b₀ tbl n S b)
    (htbl : tbl + n ≤ b₀.count) (hn : 0 < n) (hbuf : (b₀.table.buffers buf).allocated = false)
    (hbuft : buf < tbl ∨ tbl + n ≤ buf) (hfirst : S first)
    (hfits : ∀ b' calls failed, b.allocBlocks p.blocks first = (true, b') →
      p.choice = some (calls, failed) →
      let r := (run DriveCall.step b' calls).2
      r.table.count = b'.table.count ∧ (r.table.buffers = b'.table.buffers ∧ r.chan = b'.chan ∨
        (b₀.table.users = 0 ∧ b₀.table.dirties = 0 ∧ r.table.users = 0 ∧ r.table.dirties = 0))) :
    ((b.browse p first).2.reread save buf tbl first).table.Ledger ∧
      ((b.browse p first).2.reread save buf tbl first).table.activeBuffers = save := by
  -- as long as the buffers are those that the pass has taken
  have hkept : ∀ b', (∃ S', (∀ i, S i → S' i) ∧ Browsing b₀ tbl n S' b') →
      (b'.reread save buf tbl first).table.Ledger := by
    rintro b' ⟨S', hS, hb'⟩
    obtain ⟨hcount, hsave, hcounted⟩ := hb'.reread htbl hn hbuf hbuft (hS first hfirst) save
    exact h.congr hcount (hsave.trans hactive.symm) (fun i _ => (hcounted i).1)
      fun i _ => (hcounted i).2
  obtain ⟨S', hS, hblocks⟩ := hb.allocBlocks p.blocks hfirst
  refine ⟨?_, rfl⟩
  rw [browse]
  rcases heq : b.allocBlocks p.blocks first with ⟨_ | _, b'⟩
  · rw [heq] at hblocks
    exact hkept b' ⟨S', hS, hblocks⟩
  · rw [heq] at hblocks
    cases hchoice : p.choice with
    | none => exact hkept b' ⟨S', hS, hblocks⟩
    | some c =>
      obtain ⟨calls, failed⟩ := c
      obtain ⟨hcount, ⟨hbuffers, hchan⟩ | ⟨hu₀, hd₀, hu, hd⟩⟩ := hfits b' calls failed heq hchoice
      · exact hkept _ ⟨S', hS, hblocks.congr hcount hbuffers hchan⟩
      · obtain ⟨-, hsave, hule, hdle⟩ := reread_uncounted (run DriveCall.step b' calls).2 save buf tbl first
        have hzero := h.active
        show ((run DriveCall.step b' calls).2.reread save buf tbl first).table.Ledger
        exact .of_active (by omega) (by omega) (by omega)

theorem ledger_menuPass {dirBuffers save : ℕ} {p : MenuPass} (h : b.table.Ledger)
    (hactive : b.table.activeBuffers = save) (hn : 0 < dirBuffers) (hfits : b.PassFits dirBuffers p) :
    (b.menuPass dirBuffers save p).2.table.Ledger ∧ ((b.menuPass dirBuffers save p).1 = true →
      (b.menuPass dirBuffers save p).2.table.activeBuffers = save) := by
  obtain ⟨hroom, hchoice⟩ := hfits
  rw [menuPass]
  rw [atChoice] at hchoice
  rcases allocSystemBuffer_cases b with heq | ⟨buf, hbuf, hbuffree, heq⟩
  · rw [heq]
    exact ⟨ledger_setError h _, by simp⟩
  · have hledger₁ := ledger_allocSystemBuffer h
    rw [heq] at hledger₁ hchoice ⊢
    have husers := users_takeSystem hbuf hbuffree
    have hbufself : ((b.takeSystem buf).table.buffers buf).allocated = true :=
      congrArg Buffer.allocated (Table.set_self ..)
    dsimp only at hledger₁ hchoice ⊢
    rcases allocLinkedBuffers_cases (b.takeSystem buf) hn with heq₂ | ⟨tbl, hle, hfree, heq₂⟩
    · rw [heq₂]
      exact ⟨ledger_setError hledger₁ _, by simp⟩
    · obtain ⟨hledger₂, -⟩ := ledger_linked (n := dirBuffers) dirBuffers hledger₁ hle hfree (by omega)
      have hbuft : buf < tbl ∨ tbl + dirBuffers ≤ buf := by
        by_contra hin
        have hk := hfree (buf - tbl) (by omega)
        rw [show tbl + (buf - tbl) = buf by omega, hbufself] at hk
        cases hk
      have hbrowsing : Browsing b tbl dirBuffers (fun _ => False)
          ((List.range dirBuffers).foldl (linkBuffer dirBuffers tbl) (b.takeSystem buf)) := by
        refine browsing_linked hfree (fun i hi => ?_) (fun i hi => ?_) rfl
        · have hne : i ≠ buf := by
            rintro rfl
            rw [hbuffree] at hi
            cases hi
          exact Table.set_of_ne _ _ hne
        · show (Table.set ..).userBuffer i = false ∧ (Table.set ..).dirtyBuffer i = false
          by_cases hne : i = buf
          · subst hne
            rw [Table.userBuffer, Table.dirtyBuffer, Table.set_self]
            exact ⟨rfl, rfl⟩
          · rw [Table.userBuffer, Table.dirtyBuffer, Table.set_of_ne _ _ hne]
            exact Table.not_counted_of_free hi
      rw [heq₂] at hchoice ⊢
      dsimp only at hchoice ⊢
      generalize (List.range dirBuffers).foldl (linkBuffer dirBuffers tbl) (b.takeSystem buf) = b₂
        at hledger₂ hbrowsing hchoice ⊢
      have hledger₃ := ledger_allocSystemBuffer hledger₂
      rcases allocSystemBuffer_cases b₂ with heq₃ | ⟨first, hfirst, hfirstfree, heq₃⟩
      · rw [heq₃]
        exact ⟨ledger_setError hledger₂ _, by simp⟩
      · rw [heq₃] at hledger₃ hchoice ⊢
        dsimp only at hledger₃ hchoice ⊢
        by_cases hopen : p.opendirFails = true
        · rw [if_pos hopen]
          exact ⟨hledger₃, by simp⟩
        · rw [if_neg hopen] at hchoice ⊢
          have hend := ledger_browse (p := p) h hactive (hbrowsing.alloc hfirstfree) hle hn hbuffree hbuft
            (.inr rfl) fun b' calls failed hb' hc => hchoice b' calls failed (by rw [hb']) hc
          exact ⟨hend.1, fun _ => hend.2⟩

theorem ledger_menuPasses {dirBuffers save : ℕ} (hn : 0 < dirBuffers) (ps : List MenuPass)
    (h : b.table.Ledger) (hactive : b.table.activeBuffers = save)
    (hfits : PassesFit dirBuffers save ps b) : (b.menuPasses dirBuffers save ps).table.Ledger := by
  induction ps generalizing b with
  | nil => exact h
  | cons p ps ih =>
    obtain ⟨hledger, hsave⟩ := ledger_menuPass h hactive hn hfits.1
    rw [menuPasses]
    split
    · next hnext => exact ih hledger (hsave hnext) (hfits.2 hnext)
    · exact hledger

end Channels

/-- The calls of the program on the buffers. -/
inductive LedgerCall
  | drive (call : DriveCall)
  | menuBrowseFiles (passes : List MenuPass)

namespace LedgerCall

def step (dirBuffers : ℕ) (b : Channels) : LedgerCall → Unit × Channels
  | drive call => call.step b
  | menuBrowseFiles passes => ((), b.menuBrowseFiles dirBuffers passes)

def Fits (dirBuffers : ℕ) (b : Channels) : LedgerCall → Prop
  | drive call => call.Fits b
  | menuBrowseFiles passes => Channels.PassesFit dirBuffers b.table.activeBuffers passes b

end LedgerCall

theorem buffersInit_ledger (count : ℕ) : (buffersInit count).table.Ledger := by
  have hfree : ∀ i < count, ((buffersInit count).table.buffers i).allocated = false := by
    intro i hi
    simp only [buffersInit]
    rw [if_neg (by omega)]
  have hu : (buffersInit count).table.users = 0 := by
    rw [Table.users, Tally.tally, List.countP_eq_zero]
    intro i hi
    simp [(Table.not_counted_of_free (hfree i (List.mem_range.mp hi))).1]
  have hd : (buffersInit count).table.dirties = 0 := by
    rw [Table.dirties, Tally.tally, List.countP_eq_zero]
    intro i hi
    simp [(Table.not_counted_of_free (hfree i (List.mem_range.mp hi))).2]
  exact .of_active (by rw [hu, hd]; rfl) (by omega) (by omega)

/-- The ledger is right in every state of a run whose calls find room in their half of the byte and
whose menus do not change the buffers of others. -/
theorem ledger_run (count dirBuffers : ℕ) (hdir : 0 < dirBuffers) (calls : List LedgerCall)
    (h : Meets (LedgerCall.step dirBuffers) (LedgerCall.Fits dirBuffers) (buffersInit count) calls) :
    Always (LedgerCall.step dirBuffers) (fun b => b.table.Ledger) (buffersInit count) calls := by
  refine always_of_step (fun b c hb hc => ?_) (buffersInit_ledger count) h
  cases c with
  | drive call => exact call.ledger_step hb hc
  | menuBrowseFiles passes => exact Channels.ledger_menuPasses hdir passes hb rfl hc

/-- A file is opened for writing, the menu is entered and left again, and the channel is closed. -/
theorem ledger_openMenuClose :
    Always (LedgerCall.step 2) (fun b => b.table.Ledger) (buffersInit 6)
      [.drive (.buffer .allocBuffer), .drive (.buffer (.markBufferDirty 0)),
        .menuBrowseFiles [⟨false, 1, none⟩], .drive (.buffer (.freeBuffer 0))] := by
  refine ledger_run 6 2 (by decide) _ ⟨?_, ?_, ?_, ?_, trivial⟩
  · exact .inr (by decide)
  · exact ⟨by decide, by decide, .inr (by decide)⟩
  · exact ⟨⟨by decide, fun _ _ _ _ h => absurd h (by simp)⟩, fun _ => trivial⟩
  · exact (by decide : 0 < 6)

/-- Sixteen linked buffers carry into the number of dirty ones. -/
theorem ledger_carried : ¬(LedgerCall.step 2 (buffersInit 32)
    (.drive (.buffer (.allocLinkedBuffers 16)))).2.table.Ledger :=
  fun h => absurd h.users_lt (by decide)

end NoDiskEmu
