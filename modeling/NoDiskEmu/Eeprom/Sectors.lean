import Mathlib.Data.Fintype.Card
import Mathlib.Data.List.TakeWhile
import NoDiskEmu.Eeprom.Chains

/-! The sector numbers in the directory: each live entry lists its sectors from the front, no number
is listed twice, and along the chain of a file they are the file's sectors in order. -/

namespace NoDiskEmu.Eeprom

namespace Table

variable {c : Config} {t t' : Table} {g g' : Places}

/-- Live entry `i` lists sector `x` at index `j`. -/
structure Listed (t : Table) (i j x : ℕ) : Prop where
  live : t.Live i
  lt : j < (t.dir i).maxSectors
  eq : (t.dir i).sector j = x
  ne : x ≠ 255

structure Listing (c : Config) (t : Table) : Prop where
  valid : ∀ i j x, t.Listed i j x → x < c.sectorCount ∧ t.usedSector x = true
  distinct : ∀ i j i' j' x, t.Listed i j x → t.Listed i' j' x → i = i' ∧ j = j'
  front : ∀ i j x, t.Listed i j x → ∀ k < j, ∃ y, t.Listed i k y
  full : ∀ i, t.Live i → (t.dir i).nextentry ≠ 255 → ∀ j < (t.dir i).maxSectors,
    ∃ x, t.Listed i j x

theorem Listed.unique {i j x y : ℕ} (h : t.Listed i j x) (h' : t.Listed i j y) : x = y :=
  h.eq.symm.trans h'.eq

theorem listed_congr {i : ℕ} (h : t'.dir i = t.dir i) (j x : ℕ) :
    t'.Listed i j x ↔ t.Listed i j x := by
  constructor
  · rintro ⟨h1, h2, h3, h4⟩
    rw [Live, h] at h1
    rw [h] at h2 h3
    exact ⟨h1, h2, h3, h4⟩
  · rintro ⟨h1, h2, h3, h4⟩
    refine ⟨?_, ?_, ?_, h4⟩
    · rwa [Live, h]
    · rwa [h]
    · rwa [h]

/-- Nothing is listed in addition, and every link leads on from a full entry. -/
theorem Listing.restrict (hl : t.Listing c) (hsub : ∀ i j x, t'.Listed i j x → t.Listed i j x)
    (hused : ∀ i j x, t'.Listed i j x → t'.usedSector x = t.usedSector x)
    (hfront : ∀ i j x, t'.Listed i j x → ∀ k y, t.Listed i k y → t'.Listed i k y)
    (hfull : ∀ i, t'.Live i → (t'.dir i).nextentry ≠ 255 → ∀ j < (t'.dir i).maxSectors,
      ∃ x, t'.Listed i j x) : t'.Listing c := by
  refine ⟨fun i j x h => ?_, fun i j i' j' x h h' => ?_, fun i j x h k hk => ?_, hfull⟩
  · rw [hused i j x h]
    exact hl.valid i j x (hsub i j x h)
  · exact hl.distinct i j i' j' x (hsub i j x h) (hsub i' j' x h')
  · obtain ⟨y, hy⟩ := hl.front i j x (hsub i j x h) k hk
    exact ⟨y, hfront i j x h k y hy⟩

/-- One free sector is listed in addition, behind those that its entry lists already. -/
theorem Listing.add (hl : t.Listing c) {i₀ j₀ x₀ : ℕ}
    (hiff : ∀ i j x, t'.Listed i j x ↔ t.Listed i j x ∨ i = i₀ ∧ j = j₀ ∧ x = x₀)
    (hx : x₀ < c.sectorCount) (hfree : t.usedSector x₀ = false)
    (hused : t'.usedSector = Function.update t.usedSector x₀ true)
    (hfront : ∀ k < j₀, ∃ y, t.Listed i₀ k y)
    (hfull : ∀ i, t'.Live i → (t'.dir i).nextentry ≠ 255 → ∀ j < (t'.dir i).maxSectors,
      ∃ x, t'.Listed i j x) : t'.Listing c := by
  have hnew : ∀ i j, ¬t.Listed i j x₀ := by
    intro i j h
    rw [(hl.valid i j x₀ h).2] at hfree
    cases hfree
  refine ⟨fun i j x h => ?_, fun i j i' j' x h h' => ?_, fun i j x h k hk => ?_, hfull⟩
  · rcases (hiff i j x).mp h with hold | ⟨-, -, rfl⟩
    · have hne : x ≠ x₀ := fun heq => hnew i j (heq ▸ hold)
      rw [hused, Function.update_of_ne hne]
      exact hl.valid i j x hold
    · rw [hused, Function.update_self]
      exact ⟨hx, rfl⟩
  · rcases (hiff i j x).mp h with hold | ⟨rfl, rfl, rfl⟩ <;>
    rcases (hiff i' j' x).mp h' with hold' | ⟨rfl, rfl, h3⟩
    · exact hl.distinct i j i' j' x hold hold'
    · exact absurd (h3 ▸ hold) (hnew i j)
    · exact absurd hold' (hnew i' j')
    · exact ⟨rfl, rfl⟩
  · rcases (hiff i j x).mp h with hold | ⟨rfl, rfl, rfl⟩
    · obtain ⟨y, hy⟩ := hl.front i j x hold k hk
      exact ⟨y, (hiff i k y).mpr (.inl hy)⟩
    · obtain ⟨y, hy⟩ := hfront k hk
      exact ⟨y, (hiff i k y).mpr (.inl hy)⟩

/-- An entry is replaced by one that is as live and lists as much. -/
theorem listed_set {i : ℕ} {e : Entry} (hdel : e.deleted = (t.dir i).deleted)
    (hlist : e.isListentry = (t.dir i).isListentry)
    (hsec : t.Live i → ∀ j < (t.dir i).maxSectors, e.sector j = (t.dir i).sector j)
    (k j x : ℕ) : (t.set i e).Listed k j x ↔ t.Listed k j x := by
  by_cases hk : k = i
  · subst hk
    have hmax := Entry.maxSectors_eq_of_flags hlist
    constructor
    · rintro ⟨h1, h2, h3, h4⟩
      rw [Live, dir_set_self, hdel] at h1
      rw [dir_set_self, hmax] at h2
      rw [dir_set_self, hsec h1 j h2] at h3
      exact ⟨h1, h2, h3, h4⟩
    · rintro ⟨h1, h2, h3, h4⟩
      refine ⟨?_, ?_, ?_, h4⟩
      · rw [Live, dir_set_self, hdel]
        exact h1
      · rwa [dir_set_self, hmax]
      · rwa [dir_set_self, hsec h1 j h2]
  · exact listed_congr (dir_set_ne hk) j x

theorem Listing.set (hl : t.Listing c) {i : ℕ} {e : Entry} (hdel : e.deleted = (t.dir i).deleted)
    (hlist : e.isListentry = (t.dir i).isListentry)
    (hnext : e.nextentry = (t.dir i).nextentry)
    (hsec : t.Live i → ∀ j < (t.dir i).maxSectors, e.sector j = (t.dir i).sector j) :
    (t.set i e).Listing c := by
  have hiff := listed_set hdel hlist hsec
  have hsame := SameLinks.set hdel hlist hnext
  refine hl.restrict (fun k j x h => (hiff k j x).mp h) (fun _ _ _ _ => rfl)
    (fun k j x _ k' y h => (hiff k k' y).mpr h) (fun k hk hne j hj => ?_)
  rw [hsame.nextentry] at hne
  rw [Entry.maxSectors_eq_of_flags (hsame.isListentry k)] at hj
  obtain ⟨x, hx⟩ := hl.full k ((hsame.live k).mp hk) hne j hj
  exact ⟨x, (hiff k j x).mpr hx⟩

/-- Nothing is listed in a new name entry. -/
theorem listed_create {i : ℕ} {nm : Name} (hdead : ¬t.Live i) (k j x : ℕ) :
    ((t.take i).set i (Entry.newName nm)).Listed k j x ↔ t.Listed k j x := by
  by_cases hk : k = i
  · subst hk
    constructor
    · rintro ⟨-, h2, h3, h4⟩
      rw [dir_set_self, Entry.maxSectors, Entry.isListentry_newName] at h2
      rw [dir_set_self, Entry.sector_newName h2] at h3
      exact absurd h3.symm h4
    · exact fun h => absurd h.live hdead
  · exact (listed_congr (dir_set_ne hk) j x).trans
      (listed_congr (show (t.take i).dir k = t.dir k from rfl) j x)

theorem Listing.create (hl : t.Listing c) {i : ℕ} {nm : Name} (hdead : ¬t.Live i) :
    ((t.take i).set i (Entry.newName nm)).Listing c := by
  have hiff : ∀ k j x, ((t.take i).set i (Entry.newName nm)).Listed k j x ↔ t.Listed k j x :=
    listed_create hdead
  refine hl.restrict (fun k j x h => (hiff k j x).mp h) (fun _ _ _ _ => rfl)
    (fun k j x _ k' y h => (hiff k k' y).mpr h) (fun k hk hne j hj => ?_)
  by_cases heq : k = i
  · subst heq
    rw [dir_set_self, Entry.nextentry_newName] at hne
    exact absurd rfl hne
  · rw [Live, dir_set_ne heq] at hk
    rw [dir_set_ne heq] at hne hj
    obtain ⟨x, hx⟩ := hl.full k hk hne j hj
    exact ⟨x, (hiff k j x).mpr hx⟩

/-- A sector number is written to a free place of entry `i`. -/
theorem listed_record {i j₀ x₀ : ℕ} (hj : j₀ < (t.dir i).maxSectors) (hx : x₀ < 255)
    (hplace : t.Live i → (t.dir i).sector j₀ = 255) (k j x : ℕ) :
    ((t.mark x₀ true).set i ((t.dir i).setSector j₀ x₀)).Listed k j x ↔
      t.Listed k j x ∨ t.Live i ∧ k = i ∧ j = j₀ ∧ x = x₀ := by
  have hmaxle := (t.dir i).maxSectors_le
  by_cases hk : k = i
  · subst hk
    have hdel : ((t.dir k).setSector j₀ x₀).deleted = (t.dir k).deleted :=
      (t.dir k).deleted_setSector (by omega)
    have hmax : ((t.dir k).setSector j₀ x₀).maxSectors = (t.dir k).maxSectors :=
      Entry.maxSectors_eq_of_flags ((t.dir k).isListentry_setSector (by omega))
    constructor
    · rintro ⟨h1, h2, h3, h4⟩
      rw [Live, dir_set_self, hdel] at h1
      rw [dir_set_self, hmax] at h2
      rw [dir_set_self] at h3
      by_cases heq : j = j₀
      · subst heq
        rw [Entry.sector_setSector_self (by omega)] at h3
        exact .inr ⟨h1, rfl, rfl, h3.symm⟩
      · rw [Entry.sector_setSector_ne (by omega) (by omega) heq] at h3
        exact .inl ⟨h1, h2, h3, h4⟩
    · rintro (⟨h1, h2, h3, h4⟩ | ⟨h1, -, rfl, rfl⟩)
      · have hne : j ≠ j₀ := by
          rintro rfl
          exact h4 (h3.symm.trans (hplace h1))
        refine ⟨?_, ?_, ?_, h4⟩
        · rwa [Live, dir_set_self, hdel]
        · rwa [dir_set_self, hmax]
        · rwa [dir_set_self, Entry.sector_setSector_ne (by omega) (by omega) hne]
      · refine ⟨?_, ?_, ?_, by omega⟩
        · rwa [Live, dir_set_self, hdel]
        · rwa [dir_set_self, hmax]
        · rw [dir_set_self, Entry.sector_setSector_self (by omega)]
  · rw [listed_congr (t := t) (by rw [dir_set_ne hk, dir_mark]) j x]
    simp [hk]

theorem Listing.record (hl : t.Listing c) {i j₀ x₀ : ℕ} (hj : j₀ < (t.dir i).maxSectors)
    (hx : x₀ < c.sectorCount) (hfree : t.usedSector x₀ = false)
    (hplace : t.Live i → (t.dir i).sector j₀ = 255)
    (hfront : t.Live i → ∀ k < j₀, ∃ y, t.Listed i k y) :
    ((t.mark x₀ true).set i ((t.dir i).setSector j₀ x₀)).Listing c := by
  have hsc : c.sectorCount < 256 := c.sectors_lt
  have hmaxle := (t.dir i).maxSectors_le
  have hiff := listed_record hj (by omega : x₀ < 255) hplace
  have hsame : SameLinks t ((t.mark x₀ true).set i ((t.dir i).setSector j₀ x₀)) :=
    (SameLinks.mark x₀ true).trans (SameLinks.set (Entry.deleted_setSector (by omega))
      (Entry.isListentry_setSector (by omega)) (Entry.nextentry_setSector (by omega)))
  have hfull : ∀ k, ((t.mark x₀ true).set i ((t.dir i).setSector j₀ x₀)).Live k →
      (((t.mark x₀ true).set i ((t.dir i).setSector j₀ x₀)).dir k).nextentry ≠ 255 →
      ∀ j < (((t.mark x₀ true).set i ((t.dir i).setSector j₀ x₀)).dir k).maxSectors,
        ∃ x, ((t.mark x₀ true).set i ((t.dir i).setSector j₀ x₀)).Listed k j x := by
    intro k hk hne j hj
    rw [hsame.nextentry] at hne
    rw [Entry.maxSectors_eq_of_flags (hsame.isListentry k)] at hj
    obtain ⟨x, hx⟩ := hl.full k ((hsame.live k).mp hk) hne j hj
    exact ⟨x, (hiff k j x).mpr (.inl hx)⟩
  by_cases hlive : t.Live i
  · refine hl.add (fun k j x => ?_) hx hfree rfl (hfront hlive) hfull
    rw [hiff]
    simp [hlive]
  · have hiff' : ∀ k j x, ((t.mark x₀ true).set i ((t.dir i).setSector j₀ x₀)).Listed k j x ↔
        t.Listed k j x := by
      intro k j x
      rw [hiff]
      simp [hlive]
    refine hl.restrict (fun k j x h => (hiff' k j x).mp h) (fun k j x h => ?_)
      (fun k j x _ k' y h => (hiff' k k' y).mpr h) hfull
    have hused := (hl.valid k j x ((hiff' k j x).mp h)).2
    have hne : x ≠ x₀ := by
      rintro rfl
      rw [hused] at hfree
      cases hfree
    exact usedSector_mark_ne hne

/-- A new list entry `n` behind entry `i`, with its first sector. -/
theorem listed_extend {i n x₀ : ℕ} (hdead : ¬t.Live n) (hx : x₀ < 255) (k j x : ℕ) :
    ((((t.take n).set i ((t.dir i).setNextentry n)).mark x₀ true).set n
      (Entry.newList.setSector 0 x₀)).Listed k j x ↔
      t.Listed k j x ∨ k = n ∧ j = 0 ∧ x = x₀ := by
  have hmax : (Entry.newList.setSector 0 x₀).maxSectors = 30 := by
    rw [Entry.maxSectors, Entry.isListentry_setSector (by omega), Entry.isListentry_newList]
    rfl
  by_cases hk : k = n
  · subst hk
    constructor
    · rintro ⟨-, h2, h3, h4⟩
      rw [dir_set_self, hmax] at h2
      rw [dir_set_self] at h3
      by_cases heq : j = 0
      · subst heq
        rw [Entry.sector_setSector_self (by omega)] at h3
        exact .inr ⟨rfl, rfl, h3.symm⟩
      · rw [Entry.sector_setSector_ne (by omega) h2 heq, Entry.sector_newList j h2] at h3
        exact absurd h3.symm h4
    · rintro (h | ⟨-, rfl, rfl⟩)
      · exact absurd h.live hdead
      · refine ⟨?_, ?_, ?_, by omega⟩
        · rw [Live, dir_set_self, Entry.deleted_setSector (by omega), Entry.deleted_newList]
        · rw [dir_set_self, hmax]
          omega
        · rw [dir_set_self, Entry.sector_setSector_self (by omega)]
  · rw [listed_congr (t := (t.take n).set i ((t.dir i).setNextentry n))
      (by rw [dir_set_ne hk, dir_mark]) j x]
    have hset := listed_set (t := t.take n) (i := i) (e := (t.dir i).setNextentry n)
      Entry.deleted_setNextentry Entry.isListentry_setNextentry (fun _ j hj => by
        have hle := ((t.take n).dir i).maxSectors_le
        exact Entry.sector_setNextentry (by omega)) k j x
    rw [hset.trans (listed_congr (show (t.take n).dir k = t.dir k from rfl) j x)]
    simp [hk]

theorem Listing.extend (hl : t.Listing c) {i n x₀ : ℕ} (hdead : ¬t.Live n) (hin : i ≠ n)
    (hx : x₀ < c.sectorCount) (hfree : t.usedSector x₀ = false)
    (hfulli : t.Live i → ∀ j < (t.dir i).maxSectors, ∃ x, t.Listed i j x) :
    ((((t.take n).set i ((t.dir i).setNextentry n)).mark x₀ true).set n
      (Entry.newList.setSector 0 x₀)).Listing c := by
  have hsc : c.sectorCount < 256 := c.sectors_lt
  have hiff := listed_extend (i := i) hdead (by omega : x₀ < 255)
  refine hl.add hiff hx hfree rfl (by omega) fun k hk hne j hj => ?_
  by_cases hkn : k = n
  · subst hkn
    rw [dir_set_self, Entry.nextentry_setSector (by omega), Entry.nextentry_newList] at hne
    exact absurd rfl hne
  · rw [Live, dir_set_ne hkn, dir_mark] at hk
    rw [dir_set_ne hkn, dir_mark] at hne hj
    by_cases hki : k = i
    · subst hki
      rw [dir_set_self, Entry.deleted_setNextentry] at hk
      rw [dir_set_self, Entry.maxSectors_eq_of_flags Entry.isListentry_setNextentry] at hj
      obtain ⟨x, hx⟩ := hfulli hk j hj
      exact ⟨x, (hiff k j x).mpr (.inl hx)⟩
    · rw [dir_set_ne hki] at hk hne hj
      obtain ⟨x, hx⟩ := hl.full k hk hne j hj
      exact ⟨x, (hiff k j x).mpr (.inl hx)⟩

theorem lt_length_takeWhile {α : Type*} {p : α → Bool} {l : List α} {j : ℕ} (hj : j < l.length)
    (h : ∀ k (hk : k < l.length), k ≤ j → p l[k] = true) : j < (l.takeWhile p).length := by
  induction l generalizing j with
  | nil => simp at hj
  | cons a l ih =>
    have ha : p a = true := h 0 (by simp) (by omega)
    rw [List.takeWhile_cons_of_pos ha, List.length_cons]
    cases j with
    | zero => omega
    | succ j =>
      have hlt : j < (l.takeWhile p).length := by
        refine ih (by simpa using hj) fun k hk hkj => ?_
        exact h (k + 1) (by simpa using hk) (by omega)
      omega

theorem leading_eq (e : Entry) :
    e.leading = (List.range e.leading.length).map e.sector ∧ e.leading.length ≤ e.maxSectors := by
  have hpre : e.leading <+: (List.range e.maxSectors).map e.sector := List.takeWhile_prefix _
  have hlen := hpre.length_le
  rw [List.length_map, List.length_range] at hlen
  refine ⟨?_, hlen⟩
  have htake := List.prefix_iff_eq_take.mp hpre
  rw [← List.map_take, List.take_range, Nat.min_eq_left hlen] at htake
  exact htake

theorem sector_leading {e : Entry} {j : ℕ} (h : j < e.leading.length) : e.sector j ≠ 255 := by
  have hmem : e.sector j ∈ e.leading := by
    rw [(leading_eq e).1]
    exact List.mem_map.mpr ⟨j, List.mem_range.mpr h, rfl⟩
  simpa using List.mem_takeWhile_imp hmem

theorem Listing.lt_leading (hl : t.Listing c) {i j x : ℕ} (h : t.Listed i j x) :
    j < (t.dir i).leading.length := by
  have hjlt := h.lt
  refine lt_length_takeWhile (by simpa using hjlt) fun k hk hkj => ?_
  rw [List.getElem_map, List.getElem_range]
  by_cases hkeq : k = j
  · have hne := h.ne
    rw [hkeq, h.eq]
    simpa using hne
  · obtain ⟨y, hy⟩ := hl.front i j x h k (by omega)
    have hne := hy.ne
    rw [hy.eq]
    simpa using hne

/-- The sectors that `eepromfs_delete` frees are those that the entry lists. -/
theorem Listing.mem_leading (hl : t.Listing c) {i x : ℕ} (hi : t.Live i) :
    x ∈ (t.dir i).leading ↔ ∃ j, t.Listed i j x := by
  obtain ⟨heq, hle⟩ := leading_eq (t.dir i)
  constructor
  · intro h
    rw [heq] at h
    obtain ⟨j, hj, hx⟩ := List.mem_map.mp h
    have hlt := List.mem_range.mp hj
    exact ⟨j, hi, by omega, hx, hx ▸ sector_leading hlt⟩
  · rintro ⟨j, hj⟩
    rw [heq]
    exact List.mem_map.mpr ⟨j, List.mem_range.mpr (hl.lt_leading hj), hj.eq⟩

theorem Listing.nodup_leading (hl : t.Listing c) {i : ℕ} (hi : t.Live i) :
    (t.dir i).leading.Nodup := by
  obtain ⟨heq, hle⟩ := leading_eq (t.dir i)
  rw [heq]
  refine List.Nodup.map_on (fun j hj k hk hjk => ?_) List.nodup_range
  rw [List.mem_range] at hj hk
  have hlj : t.Listed i j ((t.dir i).sector j) := ⟨hi, by omega, rfl, sector_leading hj⟩
  have hlk : t.Listed i k ((t.dir i).sector j) := ⟨hi, by omega, hjk.symm, sector_leading hj⟩
  exact (hl.distinct i j i k _ hlj hlk).2

theorem listed_erase {d : ℕ} (k j x : ℕ) :
    (t.erase d).Listed k j x ↔ t.Listed k j x ∧ k ≠ d := by
  by_cases hk : k = d
  · subst hk
    refine ⟨fun h => ?_, fun h => absurd rfl h.2⟩
    have hlive := h.live
    rw [erase, Live, dir_set_self] at hlive
    cases hlive
  · have hdir : (t.erase d).dir k = t.dir k := by
      rw [erase, dir_set_ne hk]
      rfl
    rw [listed_congr hdir]
    simp [hk]

theorem Listing.erase (hl : t.Listing c) {d : ℕ} (hd : t.Live d) : (t.erase d).Listing c := by
  refine hl.restrict (fun k j x h => ((listed_erase k j x).mp h).1) (fun k j x h => ?_)
    (fun k j x h k' y hy => (listed_erase k k' y).mpr ⟨hy, ((listed_erase k j x).mp h).2⟩)
    (fun k hk hne j hj => ?_)
  · obtain ⟨hold, hkd⟩ := (listed_erase k j x).mp h
    refine if_neg fun hmem => ?_
    obtain ⟨j', hj'⟩ := (hl.mem_leading hd).mp hmem
    exact hkd (hl.distinct k j d j' x hold hj').1
  · have hkd : k ≠ d := by
      rintro rfl
      rw [Table.erase, Live, dir_set_self] at hk
      cases hk
    have hdir : (t.erase d).dir k = t.dir k := by
      rw [Table.erase, dir_set_ne hkd]
      rfl
    rw [Live, hdir] at hk
    rw [hdir] at hne hj
    obtain ⟨x, hx⟩ := hl.full k hk hne j hj
    exact ⟨x, (listed_erase k j x).mpr ⟨hx, hkd⟩⟩

end Table

/-- The sectors of a file before entry `p` of its chain: 12 in the name entry, 30 in each list
entry. -/
def base (p : ℕ) : ℕ := if p = 0 then 0 else 12 + 30 * (p - 1)

/-- The position in the chain of the entry that lists sector `k` of a file. -/
def hops (k : ℕ) : ℕ := if k < 12 then 0 else (k - 12) / 30 + 1

/-- The index in its entry of sector `k` of a file. -/
def index (k : ℕ) : ℕ := if k < 12 then k else (k - 12) % 30

theorem hops_base {p j : ℕ} (h : j < if p = 0 then 12 else 30) :
    hops (base p + j) = p ∧ index (base p + j) = j := by
  unfold hops index base
  split at h
  · next hp =>
    subst hp
    simp [h]
  · next hp =>
    rw [if_neg hp, if_neg (by omega), if_neg (by omega)]
    omega

theorem base_hops (k : ℕ) :
    k = base (hops k) + index k ∧ index k < if hops k = 0 then 12 else 30 := by
  unfold hops index base
  split
  · simp; omega
  · rw [if_neg (by omega), if_neg (by omega)]
    omega

theorem base_succ (p : ℕ) : base (p + 1) = base p + if p = 0 then 12 else 30 := by
  by_cases hp : p = 0
  · subst hp
    rfl
  · rw [base, base, if_neg (by omega), if_neg hp, if_neg hp]
    omega

/-- The sectors that a file of `n` bytes needs. -/
def blocks (c : Config) (n : ℕ) : ℕ := (n + c.sectorSize - 1) / c.sectorSize

namespace Table

variable {c : Config} {t t' : Table} {g g' : Places} {r k x : ℕ}

/-- Sector `k` of the file with the first entry `r` is sector `x`. -/
def SectorAt (t : Table) (g : Places) (r k x : ℕ) : Prop :=
  ∃ i, t.Listed i (index k) x ∧ g.own i = r ∧ g.pos i = hops k

/-- The file has at least `n` sectors. -/
def Holds (t : Table) (g : Places) (r n : ℕ) : Prop := ∀ k < n, ∃ x, t.SectorAt g r k x

theorem SectorAt.unique (hl : t.Links c g) {y : ℕ} (h : t.SectorAt g r k x)
    (h' : t.SectorAt g r k y) : x = y := by
  obtain ⟨i, hi, hown, hpos⟩ := h
  obtain ⟨i', hi', hown', hpos'⟩ := h'
  obtain rfl : i = i' := hl.inj i i' hi.live hi'.live (hown.trans hown'.symm) (hpos.trans hpos'.symm)
  exact hi.unique hi'

/-- No sector is in two places. -/
theorem SectorAt.inj (hs : t.Listing c) {r' k' : ℕ} (h : t.SectorAt g r k x)
    (h' : t.SectorAt g r' k' x) : r = r' ∧ k = k' := by
  obtain ⟨i, hi, hown, hpos⟩ := h
  obtain ⟨i', hi', hown', hpos'⟩ := h'
  obtain ⟨rfl, hindex⟩ := hs.distinct i _ i' _ x hi hi'
  refine ⟨hown.symm.trans hown', ?_⟩
  rw [(base_hops k).1, (base_hops k').1, ← hpos, ← hpos', hindex]

theorem SectorAt.lt (hs : t.Listing c) (h : t.SectorAt g r k x) : x < c.sectorCount := by
  obtain ⟨i, hi, -⟩ := h
  exact (hs.valid i _ x hi).1

theorem Holds.mono {n m : ℕ} (h : t.Holds g r n) (hm : m ≤ n) : t.Holds g r m :=
  fun k hk => h k (by omega)

/-- A file has at most as many sectors as there are. -/
theorem Holds.le (hs : t.Listing c) {n : ℕ} (h : t.Holds g r n) : n ≤ c.sectorCount := by
  choose f hf using fun k : Fin n => h k k.isLt
  have hinj : Function.Injective fun k : Fin n => (⟨f k, (hf k).lt hs⟩ : Fin c.sectorCount) := by
    intro k k' heq
    have hval : f k = f k' := congrArg Fin.val heq
    exact Fin.ext (SectorAt.inj hs (hf k) (hval ▸ hf k')).2
  simpa using Fintype.card_le_of_injective _ hinj

theorem SectorAt.transfer (h : t.SectorAt g r k x)
    (hmono : ∀ i j y, g.own i = r → t.Listed i j y →
      t'.Listed i j y ∧ g'.own i = g.own i ∧ g'.pos i = g.pos i) : t'.SectorAt g' r k x := by
  obtain ⟨i, hi, hown, hpos⟩ := h
  obtain ⟨hi', hown', hpos'⟩ := hmono i _ x hown hi
  exact ⟨i, hi', hown'.trans hown, hpos'.trans hpos⟩

/-- `t'` and `g'` differ from `t` and `g` only in what belongs to the file `r`. -/
structure Frame (r : ℕ) (t : Table) (g : Places) (t' : Table) (g' : Places) : Prop where
  used : ∀ i, t.usedEntry i = true →
    t'.usedEntry i = true ∧ g'.own i = g.own i ∧ g'.pos i = g.pos i
  same : ∀ i, t.usedEntry i = true → g.own i ≠ r → t'.dir i = t.dir i
  fresh : ∀ i, t.usedEntry i = false → t'.Live i → g'.own i = r

theorem Frame.live (h : Frame r t g t' g') {i : ℕ} (hi : t.usedEntry i = true) (hr : g.own i ≠ r) :
    t'.Live i ↔ t.Live i := by
  rw [Live, h.same i hi hr, Live]

theorem Frame.sectorAt (h : Frame r t g t' g') (hl : t.Links c g) {r' : ℕ} (hr : r' ≠ r)
    (hat : t.SectorAt g r' k x) : t'.SectorAt g' r' k x := by
  refine hat.transfer fun i j y hown hi => ?_
  have hused := hl.used i hi.live
  exact ⟨(listed_congr (h.same i hused (by omega)) j y).mpr hi, (h.used i hused).2⟩

theorem Frame.holds (h : Frame r t g t' g') (hl : t.Links c g) {r' n : ℕ} (hr : r' ≠ r)
    (hn : t.Holds g r' n) : t'.Holds g' r' n := by
  intro k hk
  obtain ⟨x, hx⟩ := hn k hk
  exact ⟨x, h.sectorAt hl hr hx⟩

theorem Frame.trans {t₁ t₂ t₃ : Table} {g₁ g₂ g₃ : Places} (h : Frame r t₁ g₁ t₂ g₂)
    (h' : Frame r t₂ g₂ t₃ g₃) : Frame r t₁ g₁ t₃ g₃ := by
  refine ⟨fun i hi => ?_, fun i hi hr => ?_, fun i hi hlive => ?_⟩
  · obtain ⟨hu, ho, hp⟩ := h.used i hi
    obtain ⟨hu', ho', hp'⟩ := h'.used i hu
    exact ⟨hu', ho'.trans ho, hp'.trans hp⟩
  · obtain ⟨hu, ho, -⟩ := h.used i hi
    rw [h'.same i hu (ho.symm ▸ hr), h.same i hi hr]
  · by_cases hu : t₂.usedEntry i = true
    · by_cases ho : g₂.own i = r
      · rw [(h'.used i hu).2.1, ho]
      · have hl2 := (h'.live hu ho).mp hlive
        rw [(h'.used i hu).2.1]
        exact h.fresh i hi hl2
    · exact h'.fresh i (by simpa using hu) hlive

theorem Frame.refl (r : ℕ) (t : Table) (g : Places) (hl : t.Links c g) : Frame r t g t g :=
  ⟨fun _ hi => ⟨hi, rfl, rfl⟩, fun _ _ _ => rfl, fun _ hi hlive => absurd hlive (hl.not_live hi)⟩

theorem Frame.set (hl : t.Links c g) {i : ℕ} (hi : t.usedEntry i = true) (e : Entry) :
    Frame (g.own i) t g (t.set i e) g := by
  refine ⟨fun _ h => ⟨h, rfl, rfl⟩, fun j hj hown => ?_, fun j hj hlive => ?_⟩
  · exact dir_set_ne fun heq => hown (heq ▸ rfl)
  · have hne : j ≠ i := by
      rintro rfl
      rw [hi] at hj
      cases hj
    rw [Live, dir_set_ne hne] at hlive
    exact absurd hlive (hl.not_live hj)

theorem Frame.mark (hl : t.Links c g) (r sector : ℕ) (used : Bool) :
    Frame r t g (t.mark sector used) g :=
  ⟨fun _ h => ⟨h, rfl, rfl⟩, fun _ _ _ => rfl, fun _ hi hlive => absurd hlive (hl.not_live hi)⟩

theorem Frame.create (hl : t.Links c g) {i : ℕ} (hi : t.usedEntry i = false) (e : Entry) :
    Frame i t g ((t.take i).set i e) (g.put i i 0) := by
  have hne : ∀ j, t.usedEntry j = true → j ≠ i := by
    rintro j hj rfl
    rw [hi] at hj
    cases hj
  refine ⟨fun j hj => ?_, fun j hj _ => ?_, fun j hj hlive => ?_⟩
  · have hji := hne j hj
    rw [usedEntry_set, usedEntry_take_ne hji, Places.own_put_ne hji, Places.pos_put_ne hji]
    exact ⟨hj, rfl, rfl⟩
  · rw [dir_set_ne (hne j hj), dir_take]
  · by_cases heq : j = i
    · rw [heq, Places.own_put_self]
    · rw [Live, dir_set_ne heq] at hlive
      exact absurd hlive (hl.not_live hj)

theorem Frame.extend (hl : t.Links c g) {i n sector : ℕ} (hi : t.usedEntry i = true)
    (hn : t.usedEntry n = false) (link e : Entry) :
    Frame (g.own i) t g ((((t.take n).set i link).mark sector true).set n e)
      (g.put n (g.own i) (g.pos i + 1)) := by
  have hne : ∀ j, t.usedEntry j = true → j ≠ n := by
    rintro j hj rfl
    rw [hn] at hj
    cases hj
  refine ⟨fun j hj => ?_, fun j hj hown => ?_, fun j hj hlive => ?_⟩
  · have hjn := hne j hj
    rw [usedEntry_set, usedEntry_mark, usedEntry_set, usedEntry_take_ne hjn, Places.own_put_ne hjn,
      Places.pos_put_ne hjn]
    exact ⟨hj, rfl, rfl⟩
  · have hji : j ≠ i := fun heq => hown (heq ▸ rfl)
    rw [dir_set_ne (hne j hj), dir_mark, dir_set_ne hji, dir_take]
  · by_cases heq : j = n
    · rw [heq, Places.own_put_self]
    · have hji : j ≠ i := by
        rintro rfl
        rw [hi] at hj
        cases hj
      rw [Live, dir_set_ne heq, dir_mark, dir_set_ne hji, dir_take] at hlive
      exact absurd hlive (hl.not_live hj)

theorem Frame.erase (hl : t.Links c g) {d : ℕ} (hd : t.Live d) :
    Frame (g.own d) t g (t.erase d) g := by
  have hset := Frame.set hl (hl.used d hd) Entry.erased
  exact ⟨fun i hi => hset.used i hi, fun i hi hr => hset.same i hi hr,
    fun i hi hlive => hset.fresh i hi hlive⟩

/-- `t'` lists all that `t` lists, at the same places. -/
structure Grows (t : Table) (g : Places) (t' : Table) (g' : Places) : Prop where
  listed : ∀ i j x, t.Listed i j x → t'.Listed i j x
  places : ∀ i, t.Live i → g'.own i = g.own i ∧ g'.pos i = g.pos i

theorem Grows.trans {t₁ t₂ t₃ : Table} {g₁ g₂ g₃ : Places} (h : Grows t₁ g₁ t₂ g₂)
    (h' : Grows t₂ g₂ t₃ g₃) (hlive : ∀ i, t₁.Live i → t₂.Live i) : Grows t₁ g₁ t₃ g₃ :=
  ⟨fun i j x hi => h'.listed i j x (h.listed i j x hi), fun i hi =>
    ⟨((h'.places i (hlive i hi)).1).trans (h.places i hi).1,
      ((h'.places i (hlive i hi)).2).trans (h.places i hi).2⟩⟩

theorem Grows.sectorAt (h : Grows t g t' g') (hat : t.SectorAt g r k x) : t'.SectorAt g' r k x :=
  hat.transfer fun i j y _ hi => ⟨h.listed i j y hi, h.places i hi.live⟩

theorem Grows.holds (h : Grows t g t' g') {n : ℕ} (hn : t.Holds g r n) : t'.Holds g' r n := by
  intro k hk
  obtain ⟨x, hx⟩ := hn k hk
  exact ⟨x, h.sectorAt hx⟩

/-- Every position up to the one of a live entry of a live file is taken, and linked to the next
one. -/
theorem Links.chain (hl : t.Links c g) {i : ℕ} (hi : t.Live i) (hown : t.Live (g.own i)) {p : ℕ}
    (hp : p ≤ g.pos i) :
    ∃ e, t.Live e ∧ g.own e = g.own i ∧ g.pos e = p ∧
      (p < g.pos i → (t.dir e).nextentry ≠ 255) := by
  obtain ⟨d, hd⟩ := Nat.exists_eq_add_of_le hp
  induction d generalizing p with
  | zero => exact ⟨i, hi, rfl, by omega, by omega⟩
  | succ d ih =>
    obtain ⟨e, he, heown, hepos, -⟩ := ih (p := p + 1) (by omega) (by omega)
    obtain ⟨q, hq, hqnext⟩ := hl.prev e he (by omega) (heown.symm ▸ hown)
    have hne : (t.dir q).nextentry ≠ 255 := by
      have hb := hl.bound e he
      have hent := c.entries_lt
      omega
    obtain ⟨-, hqown, hqpos⟩ := hl.next q hq hne
    rw [hqnext] at hqown hqpos
    exact ⟨q, hq, hqown.symm.trans heown, by omega, fun _ => hne⟩

end Table

end NoDiskEmu.Eeprom
