import NoDiskEmu.Dxx.Damaged

/-! What `get_next_sector` makes of counters that do not agree with the bitmaps. -/

namespace NoDiskEmu.Dxx

open Library

variable {s s₀ s' : State} {part track sector : ℕ} {p : Partition}

/-! ### The search by the counters -/

/-- The track loop of `get_next_sector` as it goes by the counters of a BAM. -/
def countRound (p : Partition) (v : Search) : Search ⊕ Search :=
  if v.tries < 3 then
    if p.sectorsFree v.track = 0 then .inr (v.step p.imagetype.type p.d64data) else .inl v
  else .inl v

/-- The loop stops at `v`, on a track whose counter is not 0. On the directory track the counter is
read before. -/
def Stops (p : Partition) (track sector : ℕ) (v : Search) : Prop :=
  v.tries ≠ 3 ∧ (track = p.d64data.dirTrack → p.sectorsFree track ≠ 0) ∧
    ∃ fuel, Walk.loop (countRound p) fuel ⟨track, sector, 0⟩ = some v

/-- A track that the loop stops at has a free sector. -/
def FreeWhereStopped (p : Partition) (track sector : ℕ) : Prop :=
  ∀ v, Stops p track sector v → p.HasFree v.track

theorem Stops.unique {v v' : Search} (h : Stops p track sector v) (h' : Stops p track sector v') :
    v = v' := by
  obtain ⟨-, -, fuel, hloop⟩ := h
  obtain ⟨-, -, fuel', hloop'⟩ := h'
  exact Walk.loop_unique hloop hloop'

/-- The track loop goes by the counters. -/
theorem trackRound_counts (h : Searching s₀ s) (hlt : part < s₀.maxPart)
    (hm : (s₀.partition part).Mounted) (fuel : ℕ) (v : Search) :
    (Walk.loop (trackRound part) fuel (v, s) = none ∧ Walk.loop (countRound (s₀.through part)) fuel v = none) ∨
      ∃ r v', Walk.loop (trackRound part) fuel (v, s) = some r ∧
        Walk.loop (countRound (s₀.through part)) fuel v = some v' ∧ r.1 = v' ∧ Searching s₀ r.2 := by
  refine Walk.loop_simulates (fun (y : Search × State) v => y.1 = v ∧ Searching s₀ y.2)
    (fun (r : Search × State) v => r.1 = v ∧ Searching s₀ r.2) (fun y v hy => ?_) fuel ⟨rfl, h⟩
  obtain ⟨v', s'⟩ := y
  obtain ⟨rfl, hsearch⟩ := hy
  dsimp only at hsearch
  obtain ⟨s'', hfree, hsearch'⟩ := hsearch.sectorsFree hlt hm v'.track
  rw [trackRound, countRound]
  dsimp only
  by_cases htries : v'.tries < 3
  · rw [if_pos htries, if_pos htries, hfree]
    dsimp only
    by_cases hzero : (s₀.through part).sectorsFree v'.track = 0
    · rw [if_pos hzero, if_pos hzero, hsearch'.keeps.type, hsearch'.toLooking.param]
      exact .inr ⟨_, _, rfl, rfl, rfl, hsearch'⟩
    · rw [if_neg hzero, if_neg hzero]
      exact .inl ⟨_, _, rfl, rfl, rfl, hsearch'⟩
  · rw [if_neg htries, if_neg htries]
    exact .inl ⟨_, _, rfl, rfl, rfl, hsearch⟩

/-! ### What the search leaves for the write -/

/-- The search gives an error. -/
structure Denied (s : State) (r : ℕ × ℕ × ℕ × State) : Prop where
  code : r.1 = 1
  looking : Looking s r.2.2.2
  error : r.2.2.2.error.code ≠ ERROR_OK

theorem Searching.denied (h : Searching s₀ s) (t q : ℕ) : Denied s₀ (1, t, q, Dxx.diskFull s) := by
  have hlook : Looking s₀ (Dxx.diskFull s) := by
    rw [Dxx.diskFull]
    split
    · obtain ⟨hco, hkeep⟩ := setError_ok h.coherent ERROR_DISK_FULL 0 0
      exact ⟨hco, h.keeps.trans hkeep⟩
    · exact h.toLooking
  exact ⟨rfl, hlook, h.diskFull.1⟩

/-- The probes find nothing on a track without a free sector. -/
theorem not_probes (hs : Coherent s₀) (hno : ¬(s₀.through part).HasFree track) (n : ℕ) {x : ℕ}
    (h : Reached s₀ s) (hr : InRange s₀ part track x) : ¬Probes part track n x s := by
  induction n generalizing x s with
  | zero => exact id
  | succ n ih =>
    rintro (hfree | hrest)
    · exact hno ⟨x, hr.valid, (h.usable hr hfree).free hs⟩
    · exact ih (h.isFree hr) (h.nextOnTrack hr) hrest

theorem Searching.reached (h : Searching s₀ s) : Reached s₀ s :=
  ⟨h.keeps.toSameFormat, fun _ => h.coherent.hasTags, fun _ => h.toLooking⟩

/-- The probes from any sector of a track on find its free sectors: no track has more than 40 sectors. -/
theorem probes_of_hasFree (hs : Coherent s₀) (hdnp : ¬s₀.isDnp part = true) {q : ℕ}
    (hq : (s₀.through part).Valid track q) (hfree : (s₀.through part).isFree track q = true) (n : ℕ) {x : ℕ}
    (h : Reached s₀ s) (hr : InRange s₀ part track x) (hn : roundsTo (sectorsPerTrack (s₀.type part) track) q x < n) :
    Probes part track n x s := by
  induction n generalizing x s with
  | zero => exact absurd hn (Nat.not_lt_zero _)
  | succ n ih =>
    by_cases hx : x = q
    · subst hx
      obtain ⟨s1, hisfree, -⟩ := (h.looking hs).isFree hr
      refine .inl ?_
      rw [hisfree, if_pos hfree]
      exact show (0 : ℤ) < 1 by decide
    · refine .inr (ih (h.isFree hr) (h.nextOnTrack hr) ?_)
      have h40 : sectorsPerTrack (s₀.type part) track ≤ 40 := sectorsPerTrack_le_40 hr.mounted hdnp track
      have hxn : x < sectorsPerTrack (s₀.type part) track := hr.valid.2.2
      have hqn : q < sectorsPerTrack (s₀.type part) track := hq.2.2
      rw [nextOnTrack, h.format.type]
      rw [roundsTo] at hn ⊢
      split at hn <;> split <;> split <;> omega

/-- While no access fails, the track loop stops where it does by the counters. -/
theorem stopsAt_iff (hs : Coherent s) (hr : InRange s part track sector) {v : Search} :
    (∃ s', StopsAt s part track sector v s') ↔ Stops (s.through part) track sector v := by
  have hloops : ∀ {st : State}, Searching s st →
      ((∃ s' fuel, Walk.loop (trackRound part) fuel (⟨track, sector, 0⟩, st) = some (v, s')) ↔
        ∃ fuel, Walk.loop (countRound (s.through part)) fuel ⟨track, sector, 0⟩ = some v) := by
    intro st hst
    constructor
    · rintro ⟨s', fuel, hloop⟩
      rcases trackRound_counts hst hr.lt hr.mounted fuel ⟨track, sector, 0⟩ with
        ⟨hnone, -⟩ | ⟨r, v', hloop', hcount, hv, -⟩
      · rw [hloop] at hnone
        cases hnone
      · rw [hloop] at hloop'
        cases hloop'
        cases hv
        exact ⟨fuel, hcount⟩
    · rintro ⟨fuel, hcount⟩
      rcases trackRound_counts hst hr.lt hr.mounted fuel ⟨track, sector, 0⟩ with
        ⟨-, hnone⟩ | ⟨r, v', hloop, hcount', hv, -⟩
      · rw [hcount] at hnone
        cases hnone
      · rw [hcount] at hcount'
        cases hcount'
        exact ⟨r.2, fuel, by rw [hloop, ← hv]⟩
  obtain ⟨s1, hfree, hsearch⟩ := (Searching.refl hs).sectorsFree hr.lt hr.mounted track
  have hparam : (s.through part).d64data.dirTrack = (s.param part).dirTrack := rfl
  rw [Stops, hparam]
  by_cases heq : track = (s.param part).dirTrack
  · rw [← hloops hsearch]
    constructor
    · rintro ⟨s', htries, hstops⟩
      rw [if_pos heq, hfree] at hstops
      exact ⟨htries, fun _ => hstops.1, s', hstops.2⟩
    · rintro ⟨htries, hzero, s', hloop⟩
      refine ⟨s', htries, ?_⟩
      rw [if_pos heq, hfree]
      exact ⟨hzero heq, hloop⟩
  · rw [← hloops (Searching.refl hs)]
    constructor
    · rintro ⟨s', htries, hstops⟩
      rw [if_neg heq] at hstops
      exact ⟨htries, fun hyes => absurd hyes heq, s', hstops⟩
    · rintro ⟨htries, -, s', hloop⟩
      refine ⟨s', htries, ?_⟩
      rw [if_neg heq]
      exact hloop

/-- While no access fails, the condition is one on the BAM. -/
theorem freeWhereCounted_iff (hs : Coherent s) (hr : InRange s part track sector) (hdnp : ¬s.isDnp part = true) :
    FreeWhereCounted s part track sector ↔ FreeWhereStopped (s.through part) track sector := by
  have hbegins : ∀ v s', StopsAt s part track sector v s' → Reached s s' ∧
      InRange s part v.track (interleaved (s.type part) (nextInterleave (s.param part) track) v) := by
    rintro v s' ⟨-, hstops⟩
    obtain ⟨hfile, hdir⟩ := hr.mounted.interleave
    rw [nextInterleave]
    split at hstops
    · next heq =>
      obtain ⟨-, fuel, hloop⟩ := hstops
      rw [if_pos heq]
      exact trackRound_begins ((Reached.refl s).sectorsFree hr.lt hr.mounted track) hr hdnp hdir hloop
    · next heq =>
      obtain ⟨fuel, hloop⟩ := hstops
      rw [if_neg heq]
      exact trackRound_begins (Reached.refl s) hr hdnp hfile hloop
  constructor
  · intro h v hv
    obtain ⟨s', hstops⟩ := (stopsAt_iff hs hr).mpr hv
    obtain ⟨hreached, hrange⟩ := hbegins v s' hstops
    by_contra hno
    exact not_probes hs hno 100 hreached hrange (h v s' hstops)
  · intro h v s' hstops
    obtain ⟨hreached, hrange⟩ := hbegins v s' hstops
    obtain ⟨q, hq, hfree⟩ := h v ((stopsAt_iff hs hr).mp ⟨s', hstops⟩)
    refine probes_of_hasFree hs hdnp hq hfree 100 hreached hrange ?_
    have h40 : sectorsPerTrack (s.type part) v.track ≤ 40 := sectorsPerTrack_le_40 hr.mounted hdnp v.track
    have hxn : interleaved (s.type part) (nextInterleave (s.param part) track) v <
      sectorsPerTrack (s.type part) v.track := hrange.valid.2.2
    have hqn : q < sectorsPerTrack (s.type part) v.track := hq.2.2
    rw [roundsTo]
    split <;> omega

/-- On a BAM with any contents, and whatever becomes of the accesses to it, `get_first_sector` and
`get_next_sector` return only sectors that may be used, exactly if there are free sectors where
`get_next_sector` finds a track by its counter. On a DNP image they always do. While no access fails
it is the counters and bitmaps of the BAM that decide. -/
theorem search_usable_iff (hr : InRange s part track sector) :
    ((∀ fuel t q s', getFirstSector fuel part track sector s = some (0, t, q, s') ∨
      getNextSector fuel part track sector s = some (0, t, q, s') → Usable s part t q s') ↔
    s.isDnp part = true ∨ FreeWhereCounted s part track sector) ∧
      (Coherent s → ¬s.isDnp part = true →
        (FreeWhereCounted s part track sector ↔ FreeWhereStopped (s.through part) track sector)) := by
  refine ⟨?_, fun hs hdnp => freeWhereCounted_iff hs hr hdnp⟩
  have hlast : 1 ≤ s.lastTrack part := hr.valid.1.trans hr.valid.2.1
  have hfirst : ∀ fuel t q s', getFirstSector fuel part track sector s = some (0, t, q, s') →
      Usable s part t q s' := fun fuel t q s' hrun => getFirstSector_usable hr.lt hr.mounted hlast hrun
  by_cases hdnp : s.isDnp part = true
  · refine iff_of_true (fun fuel t q s' hrun => ?_) (.inl hdnp)
    rcases hrun with hrun | hrun
    · exact hfirst fuel t q s' hrun
    · rw [getNextSector, if_pos hdnp] at hrun
      exact (dnpNextSector_usable hr hdnp hrun).1
  · obtain ⟨hfile, hdir⟩ := hr.mounted.interleave
    have hnext : (∀ fuel t q s', getNextSector fuel part track sector s = some (0, t, q, s') →
        Usable s part t q s') ↔ FreeWhereCounted s part track sector := by
      by_cases heq : track = (s.param part).dirTrack
      · have hinterleave : nextInterleave (s.param part) track = (s.param part).dirInterleave := if_pos heq
        by_cases hzero : (sectorsFree s part track).1 = 0
        · refine iff_of_true (fun fuel t q s' hrun => ?_) (fun v s' hstops => ?_)
          · rw [getNextSector, if_neg hdnp, if_pos heq] at hrun
            dsimp only at hrun
            rw [if_pos hzero] at hrun
            cases hrun
          · have hstops' := hstops.2
            rw [if_pos heq] at hstops'
            exact absurd hzero hstops'.1
        · have hiff := searchNextSector_iff hr hdnp ((Reached.refl s).sectorsFree hr.lt hr.mounted track) hdir
          rw [FreeWhereCounted, hinterleave]
          refine Iff.trans (forall_congr' fun fuel => ?_) (hiff.trans (forall_congr' fun v => ?_))
          · rw [getNextSector, if_neg hdnp, if_pos heq]
            dsimp only
            rw [if_neg hzero]
            rfl
          · refine forall_congr' fun s' => ?_
            rw [StopsAt, if_pos heq]
            exact ⟨fun h hstops => h hstops.1 hstops.2.2, fun h htries hloop => h ⟨htries, hzero, hloop⟩⟩
      · have hinterleave : nextInterleave (s.param part) track = (s.param part).fileInterleave := if_neg heq
        have hiff := searchNextSector_iff hr hdnp (Reached.refl s) hfile
        rw [FreeWhereCounted, hinterleave]
        refine Iff.trans (forall_congr' fun fuel => ?_) (hiff.trans (forall_congr' fun v => ?_))
        · rw [getNextSector, if_neg hdnp, if_neg heq]
          rfl
        · refine forall_congr' fun s' => ?_
          rw [StopsAt, if_neg heq]
          exact ⟨fun h hstops => h hstops.1 hstops.2, fun h htries hloop => h ⟨htries, hloop⟩⟩
    constructor
    · exact fun hall => .inr (hnext.mp fun fuel t q s' hrun => hall fuel t q s' (.inr hrun))
    · rintro (hyes | hfree) fuel t q s' (hrun | hrun)
      · exact absurd hyes hdnp
      · exact absurd hyes hdnp
      · exact hfirst fuel t q s' hrun
      · exact hnext.mpr hfree fuel t q s' hrun

/-- The witness of `search_usable_iff`: a D41 image with one free sector, from its last track. -/
theorem oneFree_search_usable :
    ((∀ fuel t q s', getFirstSector fuel 0 35 16 oneFree = some (0, t, q, s') ∨
      getNextSector fuel 0 35 16 oneFree = some (0, t, q, s') → Usable oneFree 0 t q s') ↔
    oneFree.isDnp 0 = true ∨ FreeWhereCounted oneFree 0 35 16) ∧
      (Coherent oneFree → ¬oneFree.isDnp 0 = true →
        (FreeWhereCounted oneFree 0 35 16 ↔ FreeWhereStopped (oneFree.through 0) 35 16)) :=
  search_usable_iff ⟨by decide, ⟨174848, [], by decide⟩, by decide⟩

/-- A D41 image on which track 17 has a free sector by its counter and none by its bitmap. -/
def countedFull : State where
  partition _ := ⟨⟨.d41, false⟩, d41param, fun o => if o = 91460 then 1 else 0, true⟩
  maxPart := 1
  bamBuffer := ⟨255, 0, 0, false, fun _ => 0, 0⟩
  bamBuffer2 := none
  errorcache := ⟨255, 0, fun _ => 0⟩
  scratch _ := 0
  error := ⟨0, 0, 0⟩
  io _ := .ok
  sysFree _ := none

/-- There `get_next_sector` returns an allocated sector. -/
theorem countedFull_search_unusable :
    ¬∀ fuel t q s', getFirstSector fuel 0 17 0 countedFull = some (0, t, q, s') ∨
      getNextSector fuel 0 17 0 countedFull = some (0, t, q, s') → Usable countedFull 0 t q s' := by
  intro hall
  have hrun : ((getNextSector 101 0 17 0 countedFull).map fun r =>
      (r.1, r.2.1, r.2.2.1, (isFree r.2.2.2 0 r.2.1 r.2.2.1).1)) = some (0, 17, 4, 0) := by
    decide +kernel
  obtain ⟨⟨code, t, q, s'⟩, hnext, hr⟩ := Option.map_eq_some_iff.mp hrun
  simp only [Prod.mk.injEq] at hr
  obtain ⟨rfl, rfl, rfl, hbit⟩ := hr
  have hseen : (isFree s' 0 17 4).1 = 1 := congrArg Prod.fst (hall 101 17 4 s' (.inr hnext)).seen
  rw [hbit] at hseen
  cases hseen

end NoDiskEmu.Dxx
