import NoDiskEmu.Eeprom.Table

/-! The chains of directory entries. Every entry that was ever taken has a place: the file it was
taken for and its position in that file's chain. Places are never changed, since an entry is never
taken twice, so that they stay valid when a file is deleted while a handle still writes to it. -/

namespace NoDiskEmu.Eeprom

/-- The first entry of the file that an entry was taken for, and the position in its chain. -/
structure Places where
  own : ℕ → ℕ
  pos : ℕ → ℕ

/-- The places after entry `i` was taken. -/
def Places.put (g : Places) (i own pos : ℕ) : Places :=
  ⟨Function.update g.own i own, Function.update g.pos i pos⟩

section Put

variable {g : Places} {i j own pos : ℕ}

@[simp] theorem Places.own_put_self : (g.put i own pos).own i = own := Function.update_self ..

@[simp] theorem Places.pos_put_self : (g.put i own pos).pos i = pos := Function.update_self ..

theorem Places.own_put_ne (h : j ≠ i) : (g.put i own pos).own j = g.own j :=
  Function.update_of_ne h ..

theorem Places.pos_put_ne (h : j ≠ i) : (g.put i own pos).pos j = g.pos j :=
  Function.update_of_ne h ..

end Put

namespace Table

/-- The live entries form chains along `nextentry`, and each lies at its place. -/
structure Links (c : Config) (t : Table) (g : Places) : Prop where
  bound : ∀ i, t.Live i → i < c.entries
  used : ∀ i, t.Live i → t.usedEntry i = true
  owner : ∀ i, t.Live i → t.usedEntry (g.own i) = true
  root : ∀ i, t.Live i → (t.dir i).isListentry = false → g.own i = i ∧ g.pos i = 0
  list : ∀ i, t.Live i → (t.dir i).isListentry = true → 0 < g.pos i
  inj : ∀ i j, t.Live i → t.Live j → g.own i = g.own j → g.pos i = g.pos j → i = j
  next : ∀ i, t.Live i → (t.dir i).nextentry ≠ 255 →
    t.Live (t.dir i).nextentry ∧ g.own (t.dir i).nextentry = g.own i ∧
      g.pos (t.dir i).nextentry = g.pos i + 1
  prev : ∀ i, t.Live i → 0 < g.pos i → t.Live (g.own i) →
    ∃ p, t.Live p ∧ (t.dir p).nextentry = i

variable {c : Config} {t t' : Table} {g : Places}

/-- What the chains depend on. -/
structure SameLinks (t t' : Table) : Prop where
  deleted : ∀ i, (t'.dir i).deleted = (t.dir i).deleted
  isListentry : ∀ i, (t'.dir i).isListentry = (t.dir i).isListentry
  nextentry : ∀ i, (t'.dir i).nextentry = (t.dir i).nextentry
  usedEntry : t'.usedEntry = t.usedEntry

theorem SameLinks.live (h : SameLinks t t') (i : ℕ) : t'.Live i ↔ t.Live i := by
  rw [Live, Live, h.deleted]

theorem Links.congr (hl : t.Links c g) (h : SameLinks t t') : t'.Links c g := by
  refine ⟨fun i hi => ?_, fun i hi => ?_, fun i hi => ?_, fun i hi => ?_, fun i hi => ?_,
    fun i j hi hj => ?_, fun i hi => ?_, fun i hi hpos hown => ?_⟩
  · exact hl.bound i ((h.live i).mp hi)
  · rw [h.usedEntry]
    exact hl.used i ((h.live i).mp hi)
  · rw [h.usedEntry]
    exact hl.owner i ((h.live i).mp hi)
  · rw [h.isListentry]
    exact hl.root i ((h.live i).mp hi)
  · rw [h.isListentry]
    exact hl.list i ((h.live i).mp hi)
  · exact hl.inj i j ((h.live i).mp hi) ((h.live j).mp hj)
  · rw [h.nextentry, h.live]
    exact hl.next i ((h.live i).mp hi)
  · obtain ⟨p, hp, hnext⟩ := hl.prev i ((h.live i).mp hi) hpos ((h.live _).mp hown)
    exact ⟨p, (h.live p).mpr hp, (h.nextentry p).trans hnext⟩

theorem SameLinks.set {i : ℕ} {e : Entry} (hdel : e.deleted = (t.dir i).deleted)
    (hlist : e.isListentry = (t.dir i).isListentry)
    (hnext : e.nextentry = (t.dir i).nextentry) : SameLinks t (t.set i e) := by
  refine ⟨fun j => ?_, fun j => ?_, fun j => ?_, rfl⟩ <;>
  · by_cases hj : j = i
    · subst hj
      rwa [dir_set_self]
    · rw [dir_set_ne hj]

theorem SameLinks.mark (sector : ℕ) (used : Bool) : SameLinks t (t.mark sector used) :=
  ⟨fun _ => rfl, fun _ => rfl, fun _ => rfl, rfl⟩

theorem SameLinks.trans {t₁ t₂ t₃ : Table} (h : SameLinks t₁ t₂) (h' : SameLinks t₂ t₃) :
    SameLinks t₁ t₃ :=
  ⟨fun i => (h'.deleted i).trans (h.deleted i), fun i => (h'.isListentry i).trans (h.isListentry i),
    fun i => (h'.nextentry i).trans (h.nextentry i), h'.usedEntry.trans h.usedEntry⟩

theorem Links.not_live (hl : t.Links c g) {i : ℕ} (h : t.usedEntry i = false) : ¬t.Live i := by
  intro hi
  rw [hl.used i hi] at h
  cases h

theorem Links.maxSectors_eq (hl : t.Links c g) {i : ℕ} (hi : t.Live i) :
    (t.dir i).maxSectors = if g.pos i = 0 then 12 else 30 := by
  cases hlist : (t.dir i).isListentry
  · rw [if_pos (hl.root i hi hlist).2, Entry.maxSectors, hlist]
    rfl
  · have hpos := hl.list i hi hlist
    rw [if_neg (by omega), Entry.maxSectors, hlist]
    rfl

/-- A new file. -/
theorem Links.create (hl : t.Links c g) {i : ℕ} {e : Entry} (hi : i < c.entries)
    (hfree : t.usedEntry i = false) (hlist : e.isListentry = false) (hnext : e.nextentry = 255) :
    ((t.take i).set i e).Links c (g.put i i 0) := by
  have hdead := hl.not_live hfree
  have hold : ∀ j, ((t.take i).set i e).Live j → j ≠ i → t.Live j := by
    intro j hj hne
    rwa [Live, dir_set_ne hne] at hj
  have hkeep : ∀ j, t.Live j → ((t.take i).set i e).Live j ∧ j ≠ i := by
    intro j hj
    have hne : j ≠ i := fun heq => hdead (heq ▸ hj)
    exact ⟨by rwa [Live, dir_set_ne hne], hne⟩
  have hapart : ∀ j, t.Live j → g.own j ≠ i := by
    intro j hj hown
    have howner := hl.owner j hj
    rw [hown, hfree] at howner
    cases howner
  refine ⟨fun j hj => ?_, fun j hj => ?_, fun j hj => ?_, fun j hj => ?_, fun j hj => ?_,
    fun j k hj hk => ?_, fun j hj => ?_, fun j hj hpos hown => ?_⟩
  · by_cases heq : j = i
    · rwa [heq]
    · exact hl.bound j (hold j hj heq)
  · by_cases heq : j = i
    · rw [heq, usedEntry_set, usedEntry_take_self]
    · rw [usedEntry_set, usedEntry_take_ne heq]
      exact hl.used j (hold j hj heq)
  · by_cases heq : j = i
    · rw [heq, Places.own_put_self, usedEntry_set, usedEntry_take_self]
    · have hjl := hold j hj heq
      rw [Places.own_put_ne heq, usedEntry_set, usedEntry_take_ne (hapart j hjl)]
      exact hl.owner j hjl
  · by_cases heq : j = i
    · subst heq
      simp
    · rw [dir_set_ne heq, Places.own_put_ne heq, Places.pos_put_ne heq]
      exact hl.root j (hold j hj heq)
  · by_cases heq : j = i
    · subst heq
      simp [hlist]
    · rw [dir_set_ne heq, Places.pos_put_ne heq]
      exact hl.list j (hold j hj heq)
  · by_cases hji : j = i <;> by_cases hki : k = i
    · exact fun _ _ => hji.trans hki.symm
    · subst hji
      rw [Places.own_put_self, Places.pos_put_self, Places.own_put_ne hki, Places.pos_put_ne hki]
      intro ho _
      exact absurd ho.symm (hapart k (hold k hk hki))
    · subst hki
      rw [Places.own_put_self, Places.pos_put_self, Places.own_put_ne hji, Places.pos_put_ne hji]
      intro ho _
      exact absurd ho (hapart j (hold j hj hji))
    · rw [Places.own_put_ne hji, Places.own_put_ne hki, Places.pos_put_ne hji, Places.pos_put_ne hki]
      exact hl.inj j k (hold j hj hji) (hold k hk hki)
  · by_cases heq : j = i
    · subst heq
      simp [hnext]
    · rw [dir_set_ne heq]
      intro hne
      obtain ⟨hlive, hown, hpos⟩ := hl.next j (hold j hj heq) hne
      obtain ⟨hlive', hni⟩ := hkeep _ hlive
      refine ⟨hlive', ?_, ?_⟩
      · rw [Places.own_put_ne heq]
        exact (Places.own_put_ne hni).trans hown
      · rw [Places.pos_put_ne heq]
        exact (Places.pos_put_ne hni).trans hpos
  · by_cases heq : j = i
    · subst heq
      simp at hpos
    · rw [Places.pos_put_ne heq] at hpos
      rw [Places.own_put_ne heq] at hown
      have hjl := hold j hj heq
      obtain ⟨p, hp, hpnext⟩ := hl.prev j hjl hpos (hold _ hown (hapart j hjl))
      obtain ⟨hp', hpi⟩ := hkeep p hp
      exact ⟨p, hp', by rwa [dir_set_ne hpi]⟩

/-- Entry `n` is taken and linked to the end of a chain. -/
theorem Links.extend (hl : t.Links c g) {i n sector : ℕ} {e : Entry} (hn : n < c.entries)
    (hfree : t.usedEntry n = false) (hi : t.usedEntry i = true)
    (hown : t.usedEntry (g.own i) = true) (hlast : ∀ j, t.Live j → g.own j = g.own i → g.pos j ≤ g.pos i)
    (hlive : t.Live (g.own i) → t.Live i) (hdel : e.deleted = false)
    (hlist : e.isListentry = true) (hnext : e.nextentry = 255) :
    ((((t.take n).set i ((t.dir i).setNextentry n)).mark sector true).set n e).Links c
      (g.put n (g.own i) (g.pos i + 1)) := by
  have hlt := c.entries_lt
  have hdead := hl.not_live hfree
  have hin : i ≠ n := by
    rintro rfl
    rw [hi] at hfree
    cases hfree
  have hownn : g.own i ≠ n := by
    intro heq
    rw [heq, hfree] at hown
    cases hown
  have hapart : ∀ j, t.Live j → g.own j ≠ n := by
    intro j hj heq
    have howner := hl.owner j hj
    rw [heq, hfree] at howner
    cases howner
  generalize ht' : (((t.take n).set i ((t.dir i).setNextentry n)).mark sector true).set n e = t'
  have hdirn : t'.dir n = e := by rw [← ht', dir_set_self]
  have hdiri : t'.dir i = (t.dir i).setNextentry n := by
    rw [← ht', dir_set_ne hin, dir_mark, dir_set_self]
  have hdir : ∀ j, j ≠ n → j ≠ i → t'.dir j = t.dir j := by
    intro j hjn hji
    rw [← ht', dir_set_ne hjn, dir_mark, dir_set_ne hji, dir_take]
  have hused : ∀ j, j ≠ n → t'.usedEntry j = t.usedEntry j := by
    intro j hjn
    rw [← ht', usedEntry_set, usedEntry_mark, usedEntry_set, usedEntry_take_ne hjn]
  have husedn : t'.usedEntry n = true := by
    rw [← ht', usedEntry_set, usedEntry_mark, usedEntry_set, usedEntry_take_self]
  have hlv : ∀ j, j ≠ n → (t'.Live j ↔ t.Live j) := by
    intro j hjn
    by_cases hji : j = i
    · subst hji
      rw [Live, hdiri, Entry.deleted_setNextentry, Live]
    · rw [Live, hdir j hjn hji, Live]
  have hlistj : ∀ j, j ≠ n → (t'.dir j).isListentry = (t.dir j).isListentry := by
    intro j hjn
    by_cases hji : j = i
    · subst hji
      rw [hdiri, Entry.isListentry_setNextentry]
    · rw [hdir j hjn hji]
  refine ⟨fun j hj => ?_, fun j hj => ?_, fun j hj => ?_, fun j hj => ?_, fun j hj => ?_,
    fun j k hj hk => ?_, fun j hj => ?_, fun j hj hpos hownj => ?_⟩
  · by_cases heq : j = n
    · rwa [heq]
    · exact hl.bound j ((hlv j heq).mp hj)
  · by_cases heq : j = n
    · rwa [heq]
    · rw [hused j heq]
      exact hl.used j ((hlv j heq).mp hj)
  · by_cases heq : j = n
    · rw [heq, Places.own_put_self, hused _ hownn, hown]
    · have hjl := (hlv j heq).mp hj
      rw [Places.own_put_ne heq, hused _ (hapart j hjl)]
      exact hl.owner j hjl
  · by_cases heq : j = n
    · subst heq
      rw [hdirn, hlist]
      simp
    · rw [hlistj j heq, Places.own_put_ne heq, Places.pos_put_ne heq]
      exact hl.root j ((hlv j heq).mp hj)
  · by_cases heq : j = n
    · subst heq
      simp
    · rw [hlistj j heq, Places.pos_put_ne heq]
      exact hl.list j ((hlv j heq).mp hj)
  · by_cases hjn : j = n <;> by_cases hkn : k = n
    · exact fun _ _ => hjn.trans hkn.symm
    · subst hjn
      rw [Places.own_put_self, Places.pos_put_self, Places.own_put_ne hkn, Places.pos_put_ne hkn]
      intro ho hp
      have hle := hlast k ((hlv k hkn).mp hk) ho.symm
      omega
    · subst hkn
      rw [Places.own_put_self, Places.pos_put_self, Places.own_put_ne hjn, Places.pos_put_ne hjn]
      intro ho hp
      have hle := hlast j ((hlv j hjn).mp hj) ho
      omega
    · rw [Places.own_put_ne hjn, Places.own_put_ne hkn, Places.pos_put_ne hjn, Places.pos_put_ne hkn]
      exact hl.inj j k ((hlv j hjn).mp hj) ((hlv k hkn).mp hk)
  · by_cases heq : j = n
    · subst heq
      rw [hdirn, hnext]
      simp
    · rw [Places.own_put_ne heq, Places.pos_put_ne heq]
      by_cases hji : j = i
      · subst hji
        rw [hdiri, Entry.nextentry_setNextentry (by omega)]
        intro _
        exact ⟨by rw [Live, hdirn, hdel], Places.own_put_self, Places.pos_put_self⟩
      · rw [hdir j heq hji]
        intro hne
        obtain ⟨hnl, hno, hnp⟩ := hl.next j ((hlv j heq).mp hj) hne
        have hnn : (t.dir j).nextentry ≠ n := fun h => hdead (h ▸ hnl)
        exact ⟨(hlv _ hnn).mpr hnl, (Places.own_put_ne hnn).trans hno, (Places.pos_put_ne hnn).trans hnp⟩
  · by_cases heq : j = n
    · subst heq
      rw [Places.own_put_self] at hownj
      have hil := hlive ((hlv _ hownn).mp hownj)
      refine ⟨i, (hlv i hin).mpr hil, ?_⟩
      rw [hdiri, Entry.nextentry_setNextentry (by omega)]
    · rw [Places.pos_put_ne heq] at hpos
      rw [Places.own_put_ne heq] at hownj
      have hjl := (hlv j heq).mp hj
      obtain ⟨p, hp, hpnext⟩ := hl.prev j hjl hpos ((hlv _ (hapart j hjl)).mp hownj)
      have hpn : p ≠ n := fun h => hdead (h ▸ hp)
      refine ⟨p, (hlv p hpn).mpr hp, ?_⟩
      by_cases hpi : p = i
      · -- the end of the chain has no successor
        subst hpi
        have hne : (t.dir p).nextentry ≠ 255 := by
          have hb := hl.bound j hjl
          omega
        obtain ⟨hnl, hno, hnp⟩ := hl.next p hp hne
        have hle := hlast _ hnl hno
        omega
      · rw [hdir p hpn hpi, hpnext]

/-- The head of what is left of a chain is erased. -/
theorem Links.erase (hl : t.Links c g) {d : ℕ} (hroot : g.own d = d ∨ ¬t.Live (g.own d))
    (hhead : ∀ p, t.Live p → (t.dir p).nextentry ≠ d) : (t.erase d).Links c g := by
  have hlv : ∀ j, (t.erase d).Live j → t.Live j ∧ j ≠ d ∧ (t.erase d).dir j = t.dir j := by
    intro j hj
    by_cases heq : j = d
    · subst heq
      rw [Table.erase, Live, dir_set_self] at hj
      cases hj
    · have hdir : (t.erase d).dir j = t.dir j := by
        rw [Table.erase, dir_set_ne heq]
        rfl
      rw [Live, hdir] at hj
      exact ⟨hj, heq, hdir⟩
  have hkeep : ∀ j, t.Live j → j ≠ d → (t.erase d).Live j := by
    intro j hj hne
    rw [Table.erase, Live, dir_set_ne hne]
    exact hj
  refine ⟨fun j hj => hl.bound j (hlv j hj).1, fun j hj => hl.used j (hlv j hj).1,
    fun j hj => hl.owner j (hlv j hj).1, fun j hj => ?_, fun j hj => ?_,
    fun j k hj hk => hl.inj j k (hlv j hj).1 (hlv k hk).1, fun j hj => ?_,
    fun j hj hpos hown => ?_⟩
  · obtain ⟨hjl, -, hdir⟩ := hlv j hj
    rw [hdir]
    exact hl.root j hjl
  · obtain ⟨hjl, -, hdir⟩ := hlv j hj
    rw [hdir]
    exact hl.list j hjl
  · obtain ⟨hjl, -, hdir⟩ := hlv j hj
    rw [hdir]
    intro hne
    obtain ⟨hnl, hrest⟩ := hl.next j hjl hne
    exact ⟨hkeep _ hnl (hhead j hjl), hrest⟩
  · obtain ⟨hjl, -, -⟩ := hlv j hj
    obtain ⟨hol, hod, -⟩ := hlv _ hown
    obtain ⟨p, hp, hpnext⟩ := hl.prev j hjl hpos hol
    have hne : (t.dir p).nextentry ≠ 255 := by
      have hb := hl.bound j hjl
      have hent := c.entries_lt
      omega
    have hpd : p ≠ d := by
      rintro rfl
      have hsame := (hl.next p hp hne).2.1
      rw [hpnext] at hsame
      rcases hroot with hr | hr
      · exact hod (hsame.trans hr)
      · exact hr (hsame ▸ hol)
    refine ⟨p, hkeep p hp hpd, ?_⟩
    rw [(hlv p (hkeep p hp hpd)).2.2, hpnext]

end Table

end NoDiskEmu.Eeprom
