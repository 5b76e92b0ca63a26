import NoDiskEmu.Dxx.First
import NoDiskEmu.Dxx.Tags

/-! The searches for a free sector on a BAM with any contents, where any access may fail. -/

namespace NoDiskEmu.Dxx

open Library

variable {s s₀ s' : State} {part track sector : ℕ}

/-! ### States of a search -/

theorem sectorsFree_range (h : (sectorsFree s part track).1 ≠ 0) : 1 ≤ track ∧ track ≤ s.lastTrack part := by
  by_contra hout
  rw [sectorsFree, if_pos (by omega)] at h
  exact h rfl

/-- A state that calls lead to which look at the BAM of `s₀`, whatever becomes of their accesses; while
none fails it is one that can be told from `s₀` by its buffers only. -/
structure Reached (s₀ s : State) : Prop where
  format : SameFormat s₀ s
  tags : HasTags s₀ → HasTags s
  looking : Coherent s₀ → Looking s₀ s

theorem Reached.refl (s : State) : Reached s s := ⟨SameFormat.refl s, id, Looking.refl⟩

theorem Reached.sectorsFree (h : Reached s₀ s) (hlt : part < s₀.maxPart)
    (hm : (s₀.partition part).Mounted) (track : ℕ) : Reached s₀ (sectorsFree s part track).2 := by
  refine ⟨h.format.trans (sectorsFree_sameFormat s part track), fun hs => ?_, fun hs => ?_⟩
  · exact (h.tags hs).sectorsFree (by rw [h.format.maxPart]; exact hlt) ((h.format.mounted part).mpr hm) track
  · obtain ⟨s', hfree, hlook⟩ := (h.looking hs).sectorsFree hlt hm track
    rw [hfree]
    exact hlook

theorem Reached.isFree (h : Reached s₀ s) (hr : InRange s₀ part track sector) :
    Reached s₀ (isFree s part track sector).2 := by
  refine ⟨h.format.trans (isFree_sameFormat s part track sector), fun hs => ?_, fun hs => ?_⟩
  · exact (h.tags hs).isFree (by rw [h.format.maxPart]; exact hr.lt) hr.inBuffer.le sector
  · obtain ⟨s', hfree, hlook⟩ := (h.looking hs).isFree hr
    rw [hfree]
    exact hlook

theorem Reached.diskFull (h : Reached s₀ s) : Reached s₀ (diskFull s) := by
  rw [Dxx.diskFull]
  split
  · refine ⟨h.format.congr rfl rfl, fun hs => (h.tags hs).congr ((SameFormat.refl s).congr rfl rfl) rfl rfl, fun hs => ?_⟩
    obtain ⟨hco, hkeep⟩ := setError_ok (h.looking hs).coherent ERROR_DISK_FULL 0 0
    exact ⟨hco, (h.looking hs).keeps.trans hkeep⟩
  · exact h

/-- The sector `track`/`sector` may be given to a file: it is in range, and its bit could be read and
is set. While no access fails, it is the bit of the BAM as it was before the search. -/
structure Usable (s : State) (part track sector : ℕ) (s' : State) : Prop where
  valid : (s.partition part).Valid track sector
  seen : Shows s' part track sector
  free : Coherent s → (s.through part).isFree track sector = true

/-- A sector that `is_free` has found free may be used. -/
theorem Reached.usable (h : Reached s₀ s) (hr : InRange s₀ part track sector)
    (hfree : 0 < (Dxx.isFree s part track sector).1) :
    Usable s₀ part track sector (Dxx.isFree s part track sector).2 := by
  refine ⟨hr.valid, (shows_isFree s part track sector).mpr hfree, fun hs => ?_⟩
  obtain ⟨s', heq, -⟩ := (h.looking hs).isFree hr
  rw [heq] at hfree
  by_contra hno
  rw [if_neg hno] at hfree
  exact absurd hfree (show ¬(0 : ℤ) < 0 by decide)

/-! ### `get_first_sector` -/

theorem firstSector_usable (h : Reached s₀ s) (hlt : part < s₀.maxPart)
    (hm : (s₀.partition part).Mounted) (htrack : 1 ≤ track ∧ track ≤ s₀.lastTrack part) {fuel t q : ℕ}
    (hrun : firstSector fuel part track s = some (0, t, q, s')) : Usable s₀ part t q s' := by
  rw [firstSector] at hrun
  cases hloop : Walk.loop (firstSectorRound part track) fuel (0, s) with
  | none =>
    rw [hloop] at hrun
    cases hrun
  | some r =>
    obtain ⟨code, q', s1⟩ := r
    rw [hloop] at hrun
    cases hrun
    have hresult := Walk.loop_result (I := fun y => Reached s₀ y.2)
      (Q := fun r => r.1 = 0 → Usable s₀ part track r.2.1 r.2.2) (fun y y' hy hround => ?_)
      (fun y r hy hround => ?_) h hloop
    · exact hresult rfl
    all_goals
      obtain ⟨x, s⟩ := y
      rw [firstSectorRound] at hround
      dsimp only at hy hround
      rw [hy.format.type] at hround
      split at hround
    · next hx =>
      have hr : InRange s₀ part track x := ⟨hlt, hm, htrack.1, htrack.2, hx⟩
      split at hround
      · cases hround
      · cases hround
        exact hy.isFree hr
    · cases hround
    · next hx =>
      have hr : InRange s₀ part track x := ⟨hlt, hm, htrack.1, htrack.2, hx⟩
      split at hround
      · next hfree =>
        cases hround
        exact fun _ => hy.usable hr hfree
      · cases hround
    · cases hround
      intro hcode
      cases hcode

theorem dnpTrackRound_reached (h : Reached s₀ s) (hlt : part < s₀.maxPart)
    (hm : (s₀.partition part).Mounted) {fuel start x : ℕ} {found : Option ℕ}
    (hloop : Walk.loop (dnpTrackRound part start) fuel (x, s) = some (found, s')) :
    Reached s₀ s' ∧ ∀ t, found = some t → ∃ s'', Reached s₀ s'' ∧ (sectorsFree s'' part t).1 ≠ 0 ∧
      s' = (sectorsFree s'' part t).2 := by
  have hresult := Walk.loop_result (I := fun y : ℕ × State => Reached s₀ y.2)
    (Q := fun r : Option ℕ × State => Reached s₀ r.2 ∧ ∀ t, r.1 = some t → ∃ s'', Reached s₀ s'' ∧
      (sectorsFree s'' part t).1 ≠ 0 ∧ r.2 = (sectorsFree s'' part t).2) (fun y y' hy hround => ?_)
    (fun y r hy hround => ?_) h hloop
  · exact hresult
  all_goals
    rw [dnpTrackRound] at hround
    dsimp only at hround
    split at hround
  · cases hround
  · generalize (if (y.1 + 1) % 256 = (sectorsFree y.2 part y.1).2.lastTrack part ∨ (y.1 + 1) % 256 = 0
      then 1 else (y.1 + 1) % 256) = next at hround
    split at hround
    · cases hround
    · cases hround
      exact hy.sectorsFree hlt hm y.1
  · next hfree =>
    cases hround
    refine ⟨hy.sectorsFree hlt hm y.1, ?_⟩
    rintro _ ⟨⟩
    exact ⟨y.2, hy, hfree, rfl⟩
  · generalize (if (y.1 + 1) % 256 = (sectorsFree y.2 part y.1).2.lastTrack part ∨ (y.1 + 1) % 256 = 0
      then 1 else (y.1 + 1) % 256) = next at hround
    split at hround
    · cases hround
      refine ⟨hy.sectorsFree hlt hm y.1, ?_⟩
      rintro _ ⟨⟩
    · cases hround

/-- The distance stays in front of the number of tracks. -/
theorem nextDistance_le {d : ℤ} {last : ℕ} (hd : -128 ≤ d ∧ d ≤ 127) (hlt : d < last)
    (hneg : d < 0 → -d < last ∨ 127 < last) :
    (-128 ≤ nextDistance d ∧ nextDistance d ≤ 127) ∧ nextDistance d ≤ last ∧
      (nextDistance d < 0 → -nextDistance d < last ∨ 127 < last) := by
  rw [nextDistance, int8, int8]
  split <;> omega

theorem distanceRound_reached (h : Reached s₀ s) (hlt : part < s₀.maxPart)
    (hm : (s₀.partition part).Mounted) (hlast : 1 ≤ s₀.lastTrack part) {fuel : ℕ} {d : ℤ}
    (hloop : Walk.loop (distanceRound part) fuel (1, s) = some (d, s')) :
    Reached s₀ s' ∧ (d ≠ s₀.lastTrack part →
      1 ≤ awayTrack (s₀.param part).dirTrack d ∧ awayTrack (s₀.param part).dirTrack d ≤ s₀.lastTrack part) := by
  refine Walk.loop_result
    (I := fun y : ℤ × State => Reached s₀ y.2 ∧ (-128 ≤ y.1 ∧ y.1 ≤ 127) ∧ y.1 ≤ s₀.lastTrack part ∧
      (y.1 < 0 → -y.1 < s₀.lastTrack part ∨ 127 < s₀.lastTrack part))
    (Q := fun r : ℤ × State => Reached s₀ r.2 ∧ (r.1 ≠ s₀.lastTrack part →
      1 ≤ awayTrack (s₀.param part).dirTrack r.1 ∧
        awayTrack (s₀.param part).dirTrack r.1 ≤ s₀.lastTrack part))
    (fun y y' hy hround => ?_) (fun y r hy hround => ?_)
    ⟨h, ⟨show (-128 : ℤ) ≤ 1 by decide, show (1 : ℤ) ≤ 127 by decide⟩, by dsimp only; omega,
      fun hneg => absurd hneg (show ¬(1 : ℤ) < 0 by decide)⟩ hloop
  all_goals
    obtain ⟨d, s⟩ := y
    obtain ⟨hreached, hd, hle, hneg⟩ := hy
    dsimp only at hreached hd hle hneg
    have hparam : s.param part = s₀.param part := hreached.format.d64data part
    have hlastEq : (s₀.param part).lastTrack = s₀.lastTrack part := rfl
    rw [distanceRound] at hround
    dsimp only at hround
    rw [hparam, hlastEq] at hround
    split at hround
  · next hless =>
    split at hround
    · cases hround
    · cases hround
      exact ⟨hreached.sectorsFree hlt hm _, nextDistance_le hd hless hneg⟩
  · cases hround
  · split at hround
    · next hfree =>
      cases hround
      have hrange := sectorsFree_range hfree
      rw [hreached.format.lastTrack] at hrange
      exact ⟨hreached.sectorsFree hlt hm _, fun _ => hrange⟩
    · cases hround
  · cases hround
    exact ⟨hreached, fun hne => by omega⟩

theorem getFirstSector_usable (hlt : part < s.maxPart) (hm : (s.partition part).Mounted)
    (hlast : 1 ≤ s.lastTrack part) {fuel t q : ℕ}
    (hrun : getFirstSector fuel part track sector s = some (0, t, q, s')) : Usable s part t q s' := by
  rw [getFirstSector] at hrun
  split at hrun
  · cases hloop : Walk.loop (dnpTrackRound part 2) fuel (2, s) with
    | none =>
      rw [hloop] at hrun
      cases hrun
    | some r =>
      obtain ⟨found, s1⟩ := r
      rw [hloop] at hrun
      cases found with
      | none => cases hrun
      | some newtrack =>
        obtain ⟨hreached, hfound⟩ := dnpTrackRound_reached (Reached.refl s) hlt hm hloop
        obtain ⟨s'', hreached', hfree, -⟩ := hfound newtrack rfl
        have hrange := sectorsFree_range hfree
        rw [hreached'.format.lastTrack] at hrange
        exact firstSector_usable hreached hlt hm hrange hrun
  · cases hloop : Walk.loop (distanceRound part) fuel (1, s) with
    | none =>
      rw [hloop] at hrun
      cases hrun
    | some r =>
      obtain ⟨d, s1⟩ := r
      rw [hloop] at hrun
      obtain ⟨hreached, hrange⟩ := distanceRound_reached (Reached.refl s) hlt hm hlast hloop
      have hparam : s1.param part = s.param part := hreached.format.d64data part
      dsimp only at hrun
      rw [hparam] at hrun
      split at hrun
      · cases hrun
      · next hne => exact firstSector_usable hreached hlt hm (hrange hne) hrun

/-! ### `get_next_sector` on DNP images -/

/-- `bam_buffer` has the BAM sector with the bits of a track. -/
def HasBits (s : State) (part track : ℕ) : Prop :=
  bamBufferMatch s.bamBuffer part (bamPosition (s.type part) track .bitfield).1
    (bamPosition (s.type part) track .bitfield).2.1 = true

/-- On a DNP image the counted bits of a track are in `bam_buffer`. -/
theorem hasBits_sectorsFree (htype : s.type part = .dnp) (hfree : (sectorsFree s part track).1 ≠ 0) :
    HasBits (sectorsFree s part track).2 part track := by
  have hrange := sectorsFree_range hfree
  rw [sectorsFree, if_neg (by omega)] at hfree ⊢
  dsimp only at hfree ⊢
  by_cases hmove : (moveBamWindow s part track .freecount).1 = 0
  · have hmatch := (moveBamWindow_match s part track .freecount).mpr hmove
    rw [if_neg (not_not.mpr hmove), HasBits, (moveBamWindow_sameFormat s part track .freecount).type, htype]
    rw [htype] at hmatch
    exact hmatch
  · rw [if_pos hmove] at hfree
    exact absurd rfl hfree

/-- So the sector loop on a DNP image makes no access, and ends at a bit that is set. -/
theorem dnpSectorRound_usable (h : Reached s₀ s) (hlt : part < s₀.maxPart)
    (hm : (s₀.partition part).Mounted) (htype : s₀.type part = .dnp)
    (htrack : 1 ≤ track ∧ track ≤ s₀.lastTrack part) (hbits : HasBits s part track) {fuel q x : ℕ}
    (hx : x < 256) (hloop : Walk.loop (dnpSectorRound part track) fuel (x, s) = some (q, s')) :
    Usable s₀ part track q s' ∧ s' = s := by
  refine Walk.loop_result (I := fun y : ℕ × State => y.1 < 256 ∧ y.2 = s)
    (Q := fun r : ℕ × State => Usable s₀ part track r.1 r.2 ∧ r.2 = s) (fun y y' hy hround => ?_)
    (fun y r hy hround => ?_) ⟨hx, rfl⟩ hloop
  all_goals
    obtain ⟨x, s1⟩ := y
    obtain ⟨hx, rfl⟩ := hy
    dsimp only at hx hbits h
    have hisfree := isFree_of_match hbits x
    rw [dnpSectorRound] at hround
    dsimp only at hround
    split at hround
  · cases hround
  · cases hround
    exact ⟨Nat.mod_lt _ (by decide), by rw [hisfree]⟩
  · next hne =>
    cases hround
    refine ⟨h.usable ⟨hlt, hm, htrack.1, htrack.2, ?_⟩ ?_, by rw [hisfree]⟩
    · rw [htype]
      exact hx
    · rw [hisfree] at hne ⊢
      dsimp only at hne ⊢
      split at hne
      · next hbit =>
        rw [if_pos hbit]
        decide
      · exact absurd rfl hne
  · cases hround

theorem dnpNextSector_usable (hr : InRange s part track sector) (hdnp : s.isDnp part = true) {fuel t q : ℕ}
    (hrun : dnpNextSector fuel part track sector s = some (0, t, q, s')) :
    Usable s part t q s' ∧ Reached s s' := by
  have htype : s.type part = .dnp := hr.mounted.isDnp_iff.mp hdnp
  have hsector : sector < 256 := by
    have hlt : sector < sectorsPerTrack (s.type part) track := hr.valid.2.2
    rwa [htype] at hlt
  rw [dnpNextSector] at hrun
  cases hloop : Walk.loop (dnpTrackRound part track) fuel (track, s) with
  | none =>
    rw [hloop] at hrun
    cases hrun
  | some r =>
    obtain ⟨found, s1⟩ := r
    rw [hloop] at hrun
    cases found with
    | none => cases hrun
    | some newtrack =>
      obtain ⟨hreached, hfound⟩ := dnpTrackRound_reached (Reached.refl s) hr.lt hr.mounted hloop
      obtain ⟨s2, hreached', hfree, rfl⟩ := hfound newtrack rfl
      have hrange := sectorsFree_range hfree
      rw [hreached'.format.lastTrack] at hrange
      have hbits := hasBits_sectorsFree (by rw [hreached'.format.type]; exact htype) hfree
      dsimp only at hrun
      generalize hstart : (if newtrack = track then sector else 0) = start at hrun
      cases hsectors : Walk.loop (dnpSectorRound part newtrack) fuel
          (start, (sectorsFree s2 part newtrack).2) with
      | none =>
        rw [hsectors] at hrun
        cases hrun
      | some r =>
        rw [hsectors] at hrun
        cases hrun
        obtain ⟨husable, hsame⟩ := dnpSectorRound_usable hreached hr.lt hr.mounted htype hrange hbits
          (by split at hstart <;> omega) hsectors
        exact ⟨husable, hsame ▸ hreached⟩

/-! ### `get_next_sector` on the other images -/

/-- The sector after `x` on a track, and sector 0 after the last one. -/
def nextOnTrack (type : DxxType) (track x : ℕ) : ℕ :=
  if (x + 1) % 256 ≥ sectorsPerTrack type track then 0 else (x + 1) % 256

theorem Reached.nextOnTrack (h : Reached s₀ s) (hr : InRange s₀ part track sector) :
    InRange s₀ part track (nextOnTrack (s.type part) track sector) := by
  have hpos : 0 < sectorsPerTrack (s₀.type part) track := Nat.zero_lt_of_lt hr.valid.2.2
  refine ⟨hr.lt, hr.mounted, hr.valid.1, hr.valid.2.1, ?_⟩
  show Dxx.nextOnTrack (s.type part) track sector < sectorsPerTrack (s₀.type part) track
  rw [Dxx.nextOnTrack, h.format.type]
  split <;> omega

/-- One of `n` calls of `is_free`, for the sectors of a track from `x` on, finds a free one. -/
def Probes (part track : ℕ) : ℕ → ℕ → State → Prop
  | 0, _, _ => False
  | n + 1, x, s => 0 < (isFree s part track x).1 ∨
    Probes part track n (nextOnTrack (s.type part) track x) (isFree s part track x).2

/-- What the sector loop makes of the probes that are left. -/
structure Probed (s₀ : State) (part track : ℕ) (found : Prop) (r : Search × State) : Prop where
  reached : Reached s₀ r.2
  same : r.1.track = track
  inRange : InRange s₀ part track r.1.sector
  usable : found → r.1.tries ≠ 0 → Usable s₀ part track r.1.sector r.2
  unseen : ¬found → r.1.tries = 255 ∧ ¬Shows r.2 part track r.1.sector

/-- The sector loop ends with the first sector that a probe finds free. After the last probe `tries`
has gone past 0 and the sector that it looked at is returned all the same. -/
theorem sectorRound_probed (n : ℕ) (hn : n ≤ 255) {x : ℕ} (h : Reached s₀ s) (hr : InRange s₀ part track x) :
    ∃ r, Walk.loop (sectorRound part) (n + 1) (⟨track, x, n⟩, s) = some r ∧
      Probed s₀ part track (Probes part track (n + 1) x s) r := by
  induction n generalizing x s with
  | zero =>
    by_cases hfree : 0 < (isFree s part track x).1
    · refine ⟨(⟨track, x, 0⟩, (isFree s part track x).2), ?_, h.isFree hr, rfl, hr, fun _ hne => absurd rfl hne,
        fun hno => absurd (Or.inl hfree) hno⟩
      rw [Walk.loop, sectorRound]
      dsimp only
      rw [if_neg (by omega)]
    · refine ⟨(⟨track, x, 255⟩, (isFree s part track x).2), ?_, h.isFree hr, rfl, hr, fun hfound => ?_,
        fun _ => ⟨rfl, ?_⟩⟩
      · rw [Walk.loop, sectorRound]
        dsimp only
        rw [if_pos (by omega), if_neg (not_not.mpr rfl)]
      · exact absurd (hfound.resolve_left hfree) id
      · exact fun hshows => hfree ((shows_isFree s part track x).mp hshows)
  | succ n ih =>
    by_cases hfree : 0 < (isFree s part track x).1
    · refine ⟨(⟨track, x, n + 1⟩, (isFree s part track x).2), ?_, h.isFree hr, rfl, hr, fun _ _ => h.usable hr hfree,
        fun hno => absurd (Or.inl hfree) hno⟩
      rw [Walk.loop, sectorRound]
      dsimp only
      rw [if_neg (by omega)]
    · obtain ⟨r, hloop, hprobed⟩ := ih (by omega) (h.isFree hr) (h.nextOnTrack hr)
      refine ⟨r, ?_, hprobed.reached, hprobed.same, hprobed.inRange, fun hfound => hprobed.usable (hfound.resolve_left hfree),
        fun hno => hprobed.unseen fun hfound => hno (.inr hfound)⟩
      rw [Walk.loop, sectorRound]
      dsimp only
      rw [if_pos (by omega), if_pos (by omega), show (n + 1 + 255) % 256 = n by omega,
        (isFree_sameFormat s part track x).type]
      exact hloop

theorem Search.step_range (type : DxxType) {p : Param} {v : Search} (hp : Middle p)
    (hv : 1 ≤ v.track ∧ v.track ≤ p.lastTrack) :
    1 ≤ (v.step type p).track ∧ (v.step type p).track ≤ p.lastTrack := by
  have htwo := hp.two
  have hlt := hp.lt
  have hspec : _ ∨ (_ ∧ _ ∧ v.step type p = _) ∨ _ := Search.step_spec hp.last hv.1 hv.2 hp.lt
  rcases hspec with
    ⟨-, hone, hstep⟩ | ⟨-, -, hstep⟩ | ⟨-, next, hnext, -, -, ⟨hle, hstep⟩ | ⟨-, hstep⟩⟩
  all_goals
    rw [hstep]
    dsimp only
    omega

theorem trackRound_reached (h : Reached s₀ s) (hr : InRange s₀ part track sector)
    (hdnp : ¬s₀.isDnp part = true) {fuel : ℕ} {v : Search}
    (hloop : Walk.loop (trackRound part) fuel (⟨track, sector, 0⟩, s) = some (v, s')) :
    Reached s₀ s' ∧ (v.sector = sector ∨ v.sector = 0) ∧ 1 ≤ v.track ∧ v.track ≤ s₀.lastTrack part := by
  have hp : Middle (s₀.param part) := hr.mounted.middle hdnp
  refine Walk.loop_result
    (I := fun y : Search × State => Reached s₀ y.2 ∧ (y.1.sector = sector ∨ y.1.sector = 0) ∧
      1 ≤ y.1.track ∧ y.1.track ≤ s₀.lastTrack part)
    (Q := fun r : Search × State => Reached s₀ r.2 ∧ (r.1.sector = sector ∨ r.1.sector = 0) ∧
      1 ≤ r.1.track ∧ r.1.track ≤ s₀.lastTrack part)
    (fun y y' hy hround => ?_) (fun y r hy hround => ?_) ⟨h, .inl rfl, hr.valid.1, hr.valid.2.1⟩ hloop
  all_goals
    obtain ⟨hreached, hsector, hrange⟩ := hy
    have hreached' := hreached.sectorsFree hr.lt hr.mounted y.1.track
    rw [trackRound] at hround
    split at hround
  · dsimp only at hround
    split at hround
    · cases hround
      have hparam : (sectorsFree y.2 part y.1.track).2.param part = s₀.param part :=
        hreached'.format.d64data part
      rw [hparam]
      refine ⟨hreached', ?_, Search.step_range _ hp hrange⟩
      rcases y.1.step_sector ((sectorsFree y.2 part y.1.track).2.type part) (s₀.param part) with heq | heq
      · dsimp only
        rw [heq]
        exact hsector
      · exact .inr heq
    · cases hround
  · cases hround
  · dsimp only at hround
    split at hround
    · cases hround
    · cases hround
      exact ⟨hreached', hsector, hrange⟩
  · cases hround
    exact ⟨hreached, hsector, hrange⟩

/-- The interleave of `get_next_sector`, on the directory track and on the others. -/
def nextInterleave (p : Param) (track : ℕ) : ℕ :=
  if track = p.dirTrack then p.dirInterleave else p.fileInterleave

/-- The track loop of `get_next_sector` stops at `v`, on a track whose counter is not 0. On the
directory track the counter is read once more before. -/
def StopsAt (s : State) (part track sector : ℕ) (v : Search) (s' : State) : Prop :=
  v.tries ≠ 3 ∧
    if track = (s.param part).dirTrack then
      (sectorsFree s part track).1 ≠ 0 ∧
        ∃ fuel, Walk.loop (trackRound part) fuel (⟨track, sector, 0⟩, (sectorsFree s part track).2) = some (v, s')
    else ∃ fuel, Walk.loop (trackRound part) fuel (⟨track, sector, 0⟩, s) = some (v, s')

/-- Wherever the track loop stops, one of the 100 probes from the interleaved sector on finds a free
sector. -/
def FreeWhereCounted (s : State) (part track sector : ℕ) : Prop :=
  ∀ v s', StopsAt s part track sector v s' →
    Probes part v.track 100 (interleaved (s.type part) (nextInterleave (s.param part) track) v) s'

/-- Behind the track loop, the probes begin with a sector of the track. -/
theorem trackRound_begins (h : Reached s₀ s) (hr : InRange s₀ part track sector)
    (hdnp : ¬s₀.isDnp part = true) {interleave : ℕ}
    (hinterleave : interleave ≤ (interleaveBound (s₀.type part)).1) {fuel : ℕ} {v : Search}
    (hloop : Walk.loop (trackRound part) fuel (⟨track, sector, 0⟩, s) = some (v, s')) :
    Reached s₀ s' ∧ InRange s₀ part v.track (interleaved (s₀.type part) interleave v) := by
  obtain ⟨hreached, hsector, hrange⟩ := trackRound_reached h hr hdnp hloop
  have hstart : v.sector < sectorsPerTrack (s₀.type part) track := by
    rcases hsector with heq | heq
    · rw [heq]
      exact hr.valid.2.2
    · rw [heq]
      exact Nat.zero_lt_of_lt hr.valid.2.2
  exact ⟨hreached, hr.lt, hr.mounted, hrange.1, hrange.2, interleaved_lt
    (fun htype => hdnp (hr.mounted.isDnp_iff.mpr htype)) hinterleave hstart⟩

/-- The sector search behind the track loop. -/
theorem searchNextSector_iff (hr : InRange s₀ part track sector) (hdnp : ¬s₀.isDnp part = true)
    (h : Reached s₀ s) {interleave : ℕ} (hinterleave : interleave ≤ (interleaveBound (s₀.type part)).1) :
    (∀ fuel t q s', searchNextSector fuel part track sector interleave s = some (0, t, q, s') →
      Usable s₀ part t q s') ↔
    ∀ v s', v.tries ≠ 3 →
      (∃ fuel, Walk.loop (trackRound part) fuel (⟨track, sector, 0⟩, s) = some (v, s')) →
      Probes part v.track 100 (interleaved (s₀.type part) interleave v) s' := by
  constructor
  · rintro hsound v s1 htries ⟨fuel, hloop⟩
    obtain ⟨hreached, hrange⟩ := trackRound_begins h hr hdnp hinterleave hloop
    obtain ⟨⟨v', s2⟩, hsectors, hprobed⟩ := sectorRound_probed 99 (by decide) hreached hrange
    by_contra hno
    obtain ⟨h255, hunseen⟩ := hprobed.unseen hno
    refine hunseen (hsound (max fuel 100) v.track v'.sector s2 ?_).seen
    rw [searchNextSector, Walk.loop_mono hloop (Nat.le_max_left _ _)]
    dsimp only
    rw [if_neg htries, hreached.format.type, Walk.loop_mono hsectors (Nat.le_max_right _ _)]
    dsimp only at h255 ⊢
    rw [if_pos (by omega), show v'.track = v.track from hprobed.same]
  · intro hprobes fuel t q s' hrun
    rw [searchNextSector] at hrun
    cases hloop : Walk.loop (trackRound part) fuel (⟨track, sector, 0⟩, s) with
    | none =>
      rw [hloop] at hrun
      cases hrun
    | some r =>
      obtain ⟨v, s1⟩ := r
      rw [hloop] at hrun
      dsimp only at hrun
      split at hrun
      · cases hrun
      · next htries =>
        obtain ⟨hreached, hrange⟩ := trackRound_begins h hr hdnp hinterleave hloop
        obtain ⟨⟨v', s2⟩, hsectors, hprobed⟩ := sectorRound_probed 99 (by decide) hreached hrange
        rw [hreached.format.type] at hrun
        cases hrest : Walk.loop (sectorRound part) fuel
            (⟨v.track, interleaved (s₀.type part) interleave v, 99⟩, s1) with
        | none =>
          rw [hrest] at hrun
          cases hrun
        | some r =>
          obtain rfl := Walk.loop_unique hrest hsectors
          rw [hrest] at hrun
          dsimp only at hrun
          split at hrun
          · next hne =>
            cases hrun
            rw [show v'.track = v.track from hprobed.same]
            exact hprobed.usable (hprobes v s1 htries ⟨fuel, hloop⟩) hne
          · cases hrun

end NoDiskEmu.Dxx
