import NoDiskEmu.Eeprom.Write

/-! How much room more bytes of a file need, and that a write for which there is room succeeds. -/

namespace NoDiskEmu.Eeprom

variable {c : Config} {s s' : Eefs} {g g' : Places} {fh fh' : Handle}

/-- The entries that a file with `n` sectors takes. -/
def spans (n : ℕ) : ℕ := hops (n - 1) + 1

/-- The entries marked as used. -/
def Table.entryCount (c : Config) (t : Table) : ℕ :=
  ((Finset.range c.entries).filter fun i => t.usedEntry i = true).card

theorem spans_base {p j : ℕ} (hj : j ≤ if p = 0 then 12 else 30) (hstart : j = 0 → p = 0) :
    spans (base p + j) = p + 1 := by
  rw [spans]
  by_cases hzero : j = 0
  · obtain rfl := hstart hzero
    subst hzero
    rfl
  · rw [Nat.add_sub_assoc (by omega), (hops_base (by omega)).1]

/-- A sector is added: one sector is used in addition, and an entry if the last one is full; it fails
only if there is no sector or no entry left. -/
theorem addSector_room (hs : (s.table c).Sound c g) (hw : fh.Writer c (s.table c) g) {n : ℕ}
    (ht : fh.Tied c (s.table c) g n) (hlive : (s.table c).Live fh.entry) :
    let r := s.addSector c fh
    r.1 = .ok ∧ (r.2.2.table c).usedCount c = (s.table c).usedCount c + 1 ∧
        (r.2.2.table c).entryCount c + spans n = (s.table c).entryCount c + spans (n + 1) ∨
      (s.table c).usedCount c = c.sectorCount ∨
        (s.table c).entryCount c = c.entries ∧ spans (n + 1) = spans n + 1 := by
  have hscan := Eefs.nextFreeSector_cases c s hw.curSector_lt
  have hvalid : ∀ x, s.nextFreeSector c fh.curSector = some x → x ≠ 255 →
      x < c.sectorCount ∧ s.sectorUsed x = false := by
    intro x hx hne
    rcases hscan with ⟨h255, -⟩ | ⟨y, hy, hfree, hsome⟩
    · exact absurd (Option.some.inj (hx.symm.trans h255)) hne
    · obtain rfl := Option.some.inj (hx.symm.trans hsome)
      exact ⟨hy, hfree⟩
  have hcur := hw.curEntryLive hlive
  have hmax := hs.links.maxSectors_eq hcur
  obtain ⟨hle, -⟩ := ht.filled hcur
  have hstart := ht.start hlive
  have hspans : spans n = g.pos fh.curEntry + 1 := by
    rw [ht.count hlive]
    exact spans_base (by omega) hstart
  have hnext : (fh.curSindex + 1) % 256 < ((s.table c).dir fh.curEntry).maxSectors →
      spans (n + 1) = spans n := by
    intro hlt
    rw [hspans, ht.count hlive, Nat.add_assoc]
    exact spans_base (by omega) (by omega)
  have hfull : ((s.table c).dir fh.curEntry).maxSectors ≤ (fh.curSindex + 1) % 256 →
      spans (n + 1) = spans n + 1 := by
    intro hge
    have hsucc : n + 1 = base (g.pos fh.curEntry + 1) + 1 := by
      rw [base_succ, ht.count hlive]
      omega
    rw [hspans, hsucc]
    exact spans_base (by split <;> omega) (by omega)
  have hadded := Eefs.added_addSector c s hw.curEntry_lt
  generalize s.addSector c fh = r at hadded
  cases hadded with
  | hung hnone =>
    rcases hscan with ⟨h255, -⟩ | ⟨y, -, -, hsome⟩
    · exact absurd (hnone.symm.trans h255) (by simp)
    · exact absurd (hnone.symm.trans hsome) (by simp)
  | diskFull h255 =>
    rcases hscan with ⟨-, hall⟩ | ⟨y, hy, -, hsome⟩
    · refine .inr (.inl ?_)
      rw [Table.usedCount, Finset.filter_true_of_mem, Finset.card_range]
      exact fun x hx => hall x (Finset.mem_range.mp hx)
    · have hsc : c.sectorCount < 256 := c.sectors_lt
      have heq := Option.some.inj (h255.symm.trans hsome)
      omega
  | dirFull hsome hsector hall hge =>
    refine .inr (.inr ⟨?_, hfull hge⟩)
    rw [Table.entryCount, Finset.filter_true_of_mem, Finset.card_range]
    exact fun i hi => hall i (Finset.mem_range.mp hi)
  | recorded hsome hsector hlt htable =>
    obtain ⟨hx, hfree⟩ := hvalid _ hsome hsector
    refine .inl ⟨rfl, Table.usedCount_mark hx hfree (by rw [htable]; rfl), ?_⟩
    rw [hnext hlt, Table.entryCount, Table.entryCount, htable]
    rfl
  | extended hsome hsector hn hfreen hge htable =>
    obtain ⟨hx, hfree⟩ := hvalid _ hsome hsector
    refine .inl ⟨rfl, Table.usedCount_mark hx hfree (by rw [htable]; rfl), ?_⟩
    have hcount : (Table.entryCount c (Eefs.table c _)) = (s.table c).entryCount c + 1 :=
      Table.card_filter_update hn hfreen (by rw [htable]; rfl)
    rw [hfull hge, hcount]
    omega

/-- There is room for `len` bytes behind a file of `size` bytes: sectors and entries for it are
left. -/
structure Eefs.Room (c : Config) (s : Eefs) (size len : ℕ) : Prop where
  sectors : (s.table c).usedCount c + (blocks c (size + len) - blocks c size) ≤ c.sectorCount
  entries : (s.table c).entryCount c +
    (spans (blocks c (size + len)) - spans (blocks c size)) ≤ c.entries

theorem blocks_mono {m n : ℕ} (h : m ≤ n) : blocks c m ≤ blocks c n :=
  Nat.div_le_div_right (by omega)

theorem blocks_lt {m n : ℕ} (hmod : m % c.sectorSize = 0) (h : m < n) : blocks c m < blocks c n := by
  have hpos := c.sectorSize_pos
  have hdiv := Nat.div_add_mod m c.sectorSize
  rw [blocks_of_mod_eq_zero hmod, blocks, Nat.lt_iff_add_one_le, Nat.le_div_iff_mul_le hpos,
    Nat.add_mul, Nat.one_mul, Nat.mul_comm]
  omega

theorem spans_mono {m n : ℕ} (h : m ≤ n) : spans m ≤ spans n := by
  unfold spans hops
  split <;> split <;> omega

/-- The sectors and entries that a file has taken since it had `n₀` sectors. -/
def Taken (c : Config) (t₀ : Table) (n₀ : ℕ) (t : Table) (n : ℕ) : Prop :=
  t.usedCount c + n₀ = t₀.usedCount c + n ∧ t.entryCount c + spans n₀ = t₀.entryCount c + spans n

/-- With enough room, a write that needs a sector gets one. -/
theorem Awaiting.added {data : List UInt8} {k : ℕ} (h : Awaiting c s g fh data k s' g' fh')
    (hlive : (s.table c).Live fh.entry) (hroom : s.Room c fh.size data.length)
    (htaken : Taken c (s.table c) (blocks c fh.size) (s'.table c) (blocks c fh'.size)) :
    (s'.addSector c fh').1 = .ok ∧
      Taken c (s.table c) (blocks c fh.size) ((s'.addSector c fh').2.2.table c)
        (blocks c fh'.size + 1) := by
  have hprog := h.written.progress
  have hlive' : (s'.table c).Live fh'.entry := hprog.entry ▸ hprog.live _ hlive
  have hsize := (h.written.filled hlive).size
  have hlt := h.lt
  have hmod : fh'.size % c.sectorSize = 0 := by rw [← h.tied.offset hlive', h.offset]
  have hmore : blocks c fh'.size < blocks c (fh.size + data.length) := blocks_lt hmod (by omega)
  have hspans : spans (blocks c fh'.size + 1) ≤ spans (blocks c (fh.size + data.length)) :=
    spans_mono hmore
  obtain ⟨hsectors, hentries⟩ := htaken
  have hroom' := hroom.sectors
  have hroom'' := hroom.entries
  rcases addSector_room hprog.sound hprog.writer h.tied hlive' with ⟨hok, hused, hcount⟩ | hfull
  · exact ⟨hok, by omega, by omega⟩
  · omega

/-- A write for which there is room succeeds. -/
theorem write_room (hs : (s.table c).Sound c g) (hw : fh.Writer c (s.table c) g)
    (ht : fh.Tied c (s.table c) g (blocks c fh.size)) (hmode : fh.filemode = .write)
    (hlive : (s.table c).Live fh.entry) (data : List UInt8) (hroom : s.Room c fh.size data.length) :
    let r := s.eepromfsWrite c fh data
    r.1 = .ok ∧ ∃ g', Written c s g fh data data.length r.2.2.2 g' r.2.2.1 ∧
      r.2.2.1.Tied c (r.2.2.2.table c) g' (blocks c r.2.2.1.size) ∧
      Taken c (s.table c) (blocks c fh.size) (r.2.2.2.table c) (blocks c r.2.2.1.size) := by
  obtain ⟨g', w, -, hwritten, hok, hstop⟩ := write_rule hs hw ht hmode data
    (K := Taken c (s.table c) (blocks c fh.size)) (fun _ => ⟨rfl, rfl⟩)
    (fun _ _ _ _ hlive h htaken _ => (h.added hlive hroom htaken).2)
  by_cases hst : (s.eepromfsWrite c fh data).1 = .ok
  · obtain ⟨rfl, htied, htaken⟩ := hok hst
    exact ⟨hst, g', hwritten, htied, htaken hlive⟩
  · obtain ⟨s', g'', fh', k, hawait, htaken, hfail⟩ := hstop hst
    exact absurd (hawait.added hlive hroom (htaken hlive)).1 hfail

/-- Two writes in a row. -/
theorem Written.append {d d' : List UInt8} {w : ℕ} {s₁ s₂ : Eefs} {g₁ g₂ : Places}
    {fh₁ fh₂ : Handle} (h : Written c s g fh d d.length s₁ g₁ fh₁)
    (h' : Written c s₁ g₁ fh₁ d' w s₂ g₂ fh₂) :
    Written c s g fh (d ++ d') (d.length + w) s₂ g₂ fh₂ := by
  have hentry := h.progress.entry
  refine ⟨h.progress.trans h'.progress, ?_, fun hlive => ?_⟩
  · have hle := h'.le
    rw [List.length_append]
    omega
  · have hf := h.filled hlive
    have hf' := h'.filled (hentry ▸ h.progress.live _ hlive)
    refine ⟨fun r bytes hr hc => ?_, fun bytes hlen hc => ?_, ?_⟩
    · exact hf'.others r bytes (hentry ▸ hr) (hf.others r bytes hr hc)
    · have hown := hf.own bytes hlen hc
      rw [List.take_length, ← hentry] at hown
      have hown' := hf'.own _ ?_ hown
      · rw [hentry, List.append_assoc] at hown'
        rwa [List.take_length_add_append]
      · rw [List.length_append, hf.size, hlen]
    · rw [hf'.size, hf.size]
      omega

end NoDiskEmu.Eeprom
