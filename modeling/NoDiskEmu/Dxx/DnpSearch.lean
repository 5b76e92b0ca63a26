import NoDiskEmu.Dxx.First

/-! Which sectors the searches find on a DNP image. -/

namespace NoDiskEmu.Dxx

open Library

variable {s s₀ : State} {part track sector : ℕ}

/-! ### The track loop -/

/-- The track `u` is still to come on the way from `track` to `x`: the tracks before the last one go
round, and from the last one on the way leads to track 1. -/
def Ahead (last track u x : ℕ) : Prop :=
  if track < last then
    x < last ∧ (if track ≤ x then x - track else x + (last - 1) - track) ≤
      (if track ≤ u then u - track else u + (last - 1) - track)
  else track ≤ x ∨ x ≤ u

/-- The rounds that are left on the way to `u`. -/
def roundsAhead (last track u x : ℕ) : ℕ :=
  if track < last then
    (if track ≤ u then u - track else u + (last - 1) - track) -
      (if track ≤ x then x - track else x + (last - 1) - track)
  else if track ≤ x then 1024 - x else u - x

/-- The next track of the loop. -/
def nextTrack (last x : ℕ) : ℕ := if (x + 1) % 256 = last ∨ (x + 1) % 256 = 0 then 1 else (x + 1) % 256

/-- The loop comes nearer to `u`, and not back to its first track. -/
theorem Ahead.next {last u x : ℕ} (h : Ahead last track u x) (hx : 1 ≤ x ∧ x ≤ 255)
    (htrack : 1 ≤ track ∧ track ≤ 255) (hlast : 1 ≤ last ∧ last ≤ 255)
    (hu : 1 ≤ u ∧ (u < last ∨ u = 1)) (hne : u ≠ track) (hux : x ≠ u) :
    nextTrack last x ≠ track ∧ (1 ≤ nextTrack last x ∧ nextTrack last x ≤ 255) ∧
      Ahead last track u (nextTrack last x) ∧
      roundsAhead last track u (nextTrack last x) < roundsAhead last track u x := by
  have hnext : nextTrack last x = 1 ∧ (x + 1 = last ∨ x = 255) ∨
      nextTrack last x = x + 1 ∧ x + 1 ≠ last ∧ x ≠ 255 := by
    rw [nextTrack]
    split <;> omega
  generalize nextTrack last x = next at hnext
  rw [Ahead] at h ⊢
  rw [roundsAhead, roundsAhead]
  by_cases hlt : track < last
  · rw [if_pos hlt] at h
    rw [if_pos hlt, if_pos hlt, if_pos hlt]
    split at h <;> split at h <;> split <;> omega
  · rw [if_neg hlt] at h
    rw [if_neg hlt, if_neg hlt, if_neg hlt]
    split <;> split <;> omega

theorem dnpTrackRound_eq (h : Searching s₀ s) (hlt : part < s₀.maxPart)
    (hm : (s₀.partition part).Mounted) (track x : ℕ) :
    ∃ s', Searching s₀ s' ∧ dnpTrackRound part track (x, s) =
      if (s₀.through part).sectorsFree x ≠ 0 then .inl (some x, s')
      else if nextTrack (s₀.lastTrack part) x = track then .inl (none, s')
      else .inr (nextTrack (s₀.lastTrack part) x, s') := by
  obtain ⟨s', hfree, hsearch⟩ := h.sectorsFree hlt hm x
  refine ⟨s', hsearch, ?_⟩
  rw [dnpTrackRound, hfree, nextTrack, hsearch.keeps.lastTrack]

/-- The track loop finds a track that is ahead. -/
theorem dnpTrackRound_finds (hs : Coherent s₀) (hlt : part < s₀.maxPart)
    (hm : (s₀.partition part).Mounted) (htrack : 1 ≤ track ∧ track ≤ 255)
    (hlast : 1 ≤ s₀.lastTrack part ∧ s₀.lastTrack part ≤ 255) {u : ℕ}
    (hu : u = track ∨ 1 ≤ u ∧ (u < s₀.lastTrack part ∨ u = 1))
    (hfree : (s₀.through part).sectorsFree u ≠ 0) :
    ∃ fuel r, Walk.loop (dnpTrackRound part track) fuel (track, s₀) = some r ∧ Searching s₀ r.2 ∧
      ∃ newtrack, r.1 = some newtrack ∧ (s₀.through part).sectorsFree newtrack ≠ 0 := by
  by_cases hsame : u = track
  · obtain ⟨s', hsearch, hround⟩ := dnpTrackRound_eq (Searching.refl hs) hlt hm track track
    rw [if_pos (hsame ▸ hfree)] at hround
    exact ⟨1, (some track, s'), by rw [Walk.loop, hround], hsearch, track, rfl, hsame ▸ hfree⟩
  · have hu := hu.resolve_left hsame
    refine Walk.exists_loop
      (I := fun y : ℕ × State => Searching s₀ y.2 ∧ (1 ≤ y.1 ∧ y.1 ≤ 255) ∧
        Ahead (s₀.lastTrack part) track u y.1)
      (fun y => roundsAhead (s₀.lastTrack part) track u y.1) (fun y hy => ?_)
      ⟨Searching.refl hs, htrack, ?_⟩
    · obtain ⟨x, s⟩ := y
      obtain ⟨hsearch, hx, hahead⟩ := hy
      dsimp only at hsearch hx hahead
      obtain ⟨s', hsearch', hround⟩ := dnpTrackRound_eq hsearch hlt hm track x
      by_cases hzero : (s₀.through part).sectorsFree x = 0
      · have hux : x ≠ u := by
          rintro rfl
          exact hfree hzero
        obtain ⟨hback, hrange, hahead', hless⟩ := hahead.next hx htrack hlast hu hsame hux
        rw [if_neg (not_not.mpr hzero), if_neg hback] at hround
        exact .inr ⟨_, hround, ⟨hsearch', hrange, hahead'⟩, hless⟩
      · rw [if_pos hzero] at hround
        exact .inl ⟨_, hround, hsearch', x, rfl, hzero⟩
    · dsimp only
      rw [Ahead]
      split
      · refine ⟨by omega, ?_⟩
        split <;> split <;> omega
      · exact .inl le_rfl

/-- A track that the loop stops at has free sectors, and it is not the last one unless the loop starts
there or it is the only one. -/
theorem dnpTrackRound_visits (hs : Coherent s₀) (hlt : part < s₀.maxPart)
    (hm : (s₀.partition part).Mounted) {fuel : ℕ} {r : Option ℕ × State}
    (h : Walk.loop (dnpTrackRound part track) fuel (track, s₀) = some r) :
    Searching s₀ r.2 ∧ ∀ newtrack, r.1 = some newtrack → (s₀.through part).sectorsFree newtrack ≠ 0 ∧
      (newtrack = 1 ∨ newtrack = track ∨ newtrack ≠ s₀.lastTrack part) := by
  refine Walk.loop_result
    (I := fun y : ℕ × State => Searching s₀ y.2 ∧ (y.1 = 1 ∨ y.1 = track ∨ y.1 ≠ s₀.lastTrack part))
    (Q := fun r => Searching s₀ r.2 ∧ ∀ newtrack, r.1 = some newtrack →
      (s₀.through part).sectorsFree newtrack ≠ 0 ∧
        (newtrack = 1 ∨ newtrack = track ∨ newtrack ≠ s₀.lastTrack part))
    (fun y y' hy hround => ?_) (fun y r hy hround => ?_) ⟨Searching.refl hs, .inr (.inl rfl)⟩ h
  · obtain ⟨s', hsearch, heq⟩ := dnpTrackRound_eq hy.1 hlt hm track y.1
    rw [heq] at hround
    split at hround
    · cases hround
    · split at hround
      · cases hround
      · cases hround
        refine ⟨hsearch, ?_⟩
        dsimp only
        rw [nextTrack]
        split <;> omega
  · obtain ⟨s', hsearch, heq⟩ := dnpTrackRound_eq hy.1 hlt hm track y.1
    rw [heq] at hround
    split at hround
    · next hfree =>
      cases hround
      refine ⟨hsearch, fun newtrack hnew => ?_⟩
      cases hnew
      exact ⟨hfree, hy.2⟩
    · split at hround
      · cases hround
        exact ⟨hsearch, fun _ hnew => nomatch hnew⟩
      · cases hround

/-! ### The sector loop -/

theorem dnpSectorRound_finds (h : Searching s₀ s) (hdnp : s₀.isDnp part = true)
    (hlt : part < s₀.maxPart) (hm : (s₀.partition part).Mounted)
    (hfree : (s₀.through part).HasFree track) {x : ℕ} (hx : x < 256) :
    ∃ fuel r, Walk.loop (dnpSectorRound part track) fuel (x, s) = some r ∧ Searching s₀ r.2 ∧
      (s₀.through part).Valid track r.1 ∧ (s₀.through part).isFree track r.1 = true := by
  have htype : s₀.type part = .dnp := hm.isDnp_iff.mp hdnp
  obtain ⟨q, hq, hset⟩ := hfree
  have hvalid : ∀ x < 256, (s₀.through part).Valid track x := fun x hx => by
    refine ⟨hq.1, hq.2.1, ?_⟩
    show x < sectorsPerTrack (s₀.type part) track
    rw [htype]
    exact hx
  have hq256 : q < 256 := by
    have hlt : q < sectorsPerTrack (s₀.type part) track := hq.2.2
    rwa [htype] at hlt
  refine Walk.exists_loop (I := fun y : ℕ × State => y.1 < 256 ∧ Searching s₀ y.2)
    (fun y => (q + 256 - y.1) % 256) (fun y hy => ?_) ⟨hx, h⟩
  obtain ⟨x, s⟩ := y
  obtain ⟨hx, hsearch⟩ := hy
  dsimp only at hx hsearch
  obtain ⟨s', hisfree, hsearch'⟩ := hsearch.isFree ⟨hlt, hm, hvalid x hx⟩
  rw [dnpSectorRound, hisfree]
  dsimp only
  by_cases hbit : (s₀.through part).isFree track x = true
  · rw [if_pos hbit]
    exact .inl ⟨(x, s'), if_pos (by decide), hsearch', hvalid x hx, hbit⟩
  · have hne : x ≠ q := by
      rintro rfl
      exact hbit hset
    rw [if_neg hbit]
    refine .inr ⟨((x + 1) % 256, s'), if_neg (by decide), ⟨Nat.mod_lt _ (by decide), hsearch'⟩, ?_⟩
    dsimp only
    omega

/-! ### The two searches -/

/-- A search on a DNP image is right: it returns 0 with a free sector, if there is one, and otherwise
1 with `ERROR_DISK_FULL`. -/
structure DnpFinds (s : State) (part : ℕ) (r : ℕ × ℕ × ℕ × State) : Prop where
  code : r.1 = 0 ∨ r.1 = 1
  iff : r.1 = 0 ↔ ∃ t, (s.through part).HasFree t
  found : r.1 = 0 → (s.through part).Valid r.2.1 r.2.2.1 ∧
    (s.through part).isFree r.2.1 r.2.2.1 = true
  full : r.1 = 1 → r.2.2.2.error.code = ERROR_DISK_FULL

theorem DnpFinds.of_found {t q : ℕ} (hv : (s.through part).Valid t q)
    (hfree : (s.through part).isFree t q = true) (s' : State) : DnpFinds s part (0, t, q, s') where
  code := .inl rfl
  iff := ⟨fun _ => ⟨t, q, hv, hfree⟩, fun _ => rfl⟩
  found _ := ⟨hv, hfree⟩
  full h := nomatch h

theorem dnp_consistent (hdnp : s.isDnp part = true) (hm : (s.partition part).Mounted) :
    (s.through part).Consistent :=
  fun _ h1 h2 => Partition.counted_of_dnp hm (hm.isDnp_iff.mp hdnp) h1 h2

theorem dnp_lastTrack (hdnp : s.isDnp part = true) (hm : (s.partition part).Mounted) :
    s.lastTrack part ≤ 255 := by
  have hbound := hm.lastTrack
  rw [show (s.partition part).imagetype.type = .dnp from hm.isDnp_iff.mp hdnp] at hbound
  exact hbound

/-- `get_first_sector` comes to every track but the last one, and to that one if there are at most
two. -/
theorem dnpFirst_finds (hs : Coherent s) (hlt : part < s.maxPart) (hm : (s.partition part).Mounted)
    (hdnp : s.isDnp part = true) (track sector : ℕ) {u : ℕ} (hfree : (s.through part).HasFree u)
    (hu : u < s.lastTrack part ∨ s.lastTrack part ≤ 2) :
    ∃ fuel r, getFirstSector fuel part track sector s = some r ∧ DnpFinds s part r := by
  have hcount := dnp_consistent hdnp hm
  have hlast := dnp_lastTrack hdnp hm
  have hrange : 1 ≤ u ∧ u ≤ s.lastTrack part := hasFree_range hfree
  obtain ⟨fuel, ⟨new, s'⟩, hloop, hsearch, newtrack, hnew, hnewfree⟩ :=
    dnpTrackRound_finds hs hlt hm (show 1 ≤ 2 ∧ 2 ≤ 255 by decide) ⟨by omega, hlast⟩
      (show u = 2 ∨ 1 ≤ u ∧ (u < s.lastTrack part ∨ u = 1) by omega) ((hcount.hasFree_iff u).mpr hfree)
  dsimp only at hnew
  subst hnew
  obtain ⟨fuel', q, s'', hrun, -, hvalid, hbit⟩ :=
    firstSector_finds hsearch hlt hm ((hcount.hasFree_iff newtrack).mp hnewfree)
  refine ⟨max fuel fuel', (0, newtrack, q, s''), ?_, DnpFinds.of_found hvalid hbit s''⟩
  rw [getFirstSector, if_pos hdnp, Walk.loop_mono hloop (Nat.le_max_left _ _)]
  exact firstSector_mono hrun (Nat.le_max_right _ _)

/-- `get_next_sector` comes to every track but the last one, and to that one if it starts there. -/
theorem dnpNext_found (hs : Coherent s) (hr : InRange s part track sector)
    (hdnp : s.isDnp part = true) {u : ℕ} (hfree : (s.through part).HasFree u)
    (hu : u < s.lastTrack part ∨ track = s.lastTrack part) :
    ∃ fuel t q s', getNextSector fuel part track sector s = some (0, t, q, s') ∧ Searching s s' ∧
      (s.through part).Valid t q ∧ (s.through part).isFree t q = true := by
  have hcount := dnp_consistent hdnp hr.mounted
  have hlast := dnp_lastTrack hdnp hr.mounted
  have hrange : 1 ≤ u ∧ u ≤ s.lastTrack part := hasFree_range hfree
  have htrack := hr.valid.1
  have htrack' := hr.valid.2.1
  have hsector : sector < 256 := by
    have hlt : sector < sectorsPerTrack (s.type part) track := hr.valid.2.2
    rwa [show s.type part = .dnp from hr.mounted.isDnp_iff.mp hdnp] at hlt
  obtain ⟨fuel, ⟨new, s'⟩, hloop, hsearch, newtrack, hnew, hnewfree⟩ :=
    dnpTrackRound_finds hs hr.lt hr.mounted (show 1 ≤ track ∧ track ≤ 255 by omega) ⟨by omega, hlast⟩
      (show u = track ∨ 1 ≤ u ∧ (u < s.lastTrack part ∨ u = 1) by omega)
      ((hcount.hasFree_iff u).mpr hfree)
  dsimp only at hnew
  subst hnew
  obtain ⟨fuel', ⟨q, s''⟩, hloop', hsearch', hvalid, hbit⟩ := dnpSectorRound_finds hsearch hdnp hr.lt hr.mounted
    ((hcount.hasFree_iff newtrack).mp hnewfree) (x := if newtrack = track then sector else 0)
    (by split <;> omega)
  refine ⟨max fuel fuel', newtrack, q, s'', ?_, hsearch', hvalid, hbit⟩
  rw [getNextSector, if_pos hdnp, dnpNextSector, Walk.loop_mono hloop (Nat.le_max_left _ _)]
  dsimp only
  rw [Walk.loop_mono hloop' (Nat.le_max_right _ _)]

theorem dnpNext_finds (hs : Coherent s) (hr : InRange s part track sector)
    (hdnp : s.isDnp part = true) {u : ℕ} (hfree : (s.through part).HasFree u)
    (hu : u < s.lastTrack part ∨ track = s.lastTrack part) :
    ∃ fuel r, getNextSector fuel part track sector s = some r ∧ DnpFinds s part r := by
  obtain ⟨fuel, t, q, s', hrun, -, hvalid, hbit⟩ := dnpNext_found hs hr hdnp hfree hu
  exact ⟨fuel, _, hrun, DnpFinds.of_found hvalid hbit s'⟩

/-- A track loop that comes back to its first track sets no error; where there was none, the search is
right only if the loop finds a track. -/
theorem dnpTrack_of_finds (hs : Coherent s) (hlt : part < s.maxPart)
    (hm : (s.partition part).Mounted) (hdnp : s.isDnp part = true) (hok : s.error.code = ERROR_OK)
    {fuel t q : ℕ} {new : Option ℕ} {s' : State}
    (hloop : Walk.loop (dnpTrackRound part track) fuel (track, s) = some (new, s'))
    (hfull : new = none → DnpFinds s part (1, t, q, s')) :
    ∃ u, (s.through part).HasFree u ∧ (u = 1 ∨ u = track ∨ u ≠ s.lastTrack part) := by
  obtain ⟨hsearch, hnew⟩ := dnpTrackRound_visits hs hlt hm hloop
  cases new with
  | none =>
    have hcode := (hfull rfl).full rfl
    have herror : s'.error.code = ERROR_OK := hsearch.error.ok hok
    rw [herror] at hcode
    exact absurd hcode (by decide)
  | some u =>
    obtain ⟨hfree, hplace⟩ := hnew u rfl
    exact ⟨u, ((dnp_consistent hdnp hm).hasFree_iff u).mp hfree, hplace⟩

/-- Both searches are right on an image, whatever error is pending. -/
def DnpExact (s : State) (part track sector : ℕ) : Prop :=
  ∀ code t q, let s' := s.setErrorTs code t q
    (∃ fuel r, getFirstSector fuel part track sector s' = some r ∧ DnpFinds s' part r) ∧
      ∃ fuel r, getNextSector fuel part track sector s' = some r ∧ DnpFinds s' part r

/-- Both searches must come to a track with a free sector. -/
theorem DnpExact.exists_free (h : DnpExact s part track sector) (hs : Coherent s)
    (hr : InRange s part track sector) (hdnp : s.isDnp part = true) :
    ∃ u, (s.through part).HasFree u ∧
      (u < s.lastTrack part ∨ s.lastTrack part ≤ 2 ∧ track = s.lastTrack part) := by
  obtain ⟨⟨fuel, r, hfirst, hfinds⟩, fuel', r', hnext, hfinds'⟩ := h ERROR_OK 0 0
  obtain ⟨hco, -⟩ := setError_ok hs ERROR_OK 0 0
  have h1 : ∃ u, (s.through part).HasFree u ∧ (u = 1 ∨ u = 2 ∨ u ≠ s.lastTrack part) := by
    rw [getFirstSector, if_pos (show (s.setErrorTs ERROR_OK 0 0).isDnp part = true from hdnp)] at hfirst
    cases hloop : Walk.loop (dnpTrackRound part 2) fuel (2, s.setErrorTs ERROR_OK 0 0) with
    | none =>
      rw [hloop] at hfirst
      cases hfirst
    | some r₁ =>
      obtain ⟨new, s₁⟩ := r₁
      refine dnpTrack_of_finds (s := s.setErrorTs ERROR_OK 0 0) (t := 2) (q := sector) hco hr.lt hr.mounted
        hdnp rfl hloop ?_
      rintro rfl
      rw [hloop] at hfirst
      cases hfirst
      exact hfinds
  have h2 : ∃ u, (s.through part).HasFree u ∧ (u = 1 ∨ u = track ∨ u ≠ s.lastTrack part) := by
    rw [getNextSector, if_pos (show (s.setErrorTs ERROR_OK 0 0).isDnp part = true from hdnp),
      dnpNextSector] at hnext
    cases hloop : Walk.loop (dnpTrackRound part track) fuel' (track, s.setErrorTs ERROR_OK 0 0) with
    | none =>
      rw [hloop] at hnext
      cases hnext
    | some r₁ =>
      obtain ⟨new, s₁⟩ := r₁
      refine dnpTrack_of_finds (s := s.setErrorTs ERROR_OK 0 0) (t := track) (q := sector) hco hr.lt
        hr.mounted hdnp rfl hloop ?_
      rintro rfl
      rw [hloop] at hnext
      cases hnext
      exact hfinds'
  obtain ⟨u, hfree, hu⟩ := h1
  obtain ⟨u', hfree', hu'⟩ := h2
  have hrange : 1 ≤ u ∧ u ≤ s.lastTrack part := hasFree_range hfree
  have hrange' : 1 ≤ u' ∧ u' ≤ s.lastTrack part := hasFree_range hfree'
  have htrack := hr.valid.2.1
  have htrack1 := hr.valid.1
  by_cases hlow : u < s.lastTrack part
  · exact ⟨u, hfree, .inl hlow⟩
  · by_cases hlow' : u' < s.lastTrack part
    · exact ⟨u', hfree', .inl hlow'⟩
    · exact ⟨u, hfree, .inr ⟨by omega, by omega⟩⟩

/-- On every DNP image, both searches are right exactly if a track before the last one has a free
sector, or the last one has and both come to it. -/
theorem dnpExact_iff (hs : Coherent s) (hr : InRange s part track sector)
    (hdnp : s.isDnp part = true) :
    DnpExact s part track sector ↔
      ∃ u, (s.through part).HasFree u ∧
        (u < s.lastTrack part ∨ s.lastTrack part ≤ 2 ∧ track = s.lastTrack part) := by
  refine ⟨fun h => h.exists_free hs hr hdnp, ?_⟩
  rintro ⟨u, hfree, hu⟩ code t q
  obtain ⟨hco, -⟩ := setError_ok hs code t q
  have hr' : InRange (s.setErrorTs code t q) part track sector := ⟨hr.lt, hr.mounted, hr.valid⟩
  exact ⟨dnpFirst_finds hco hr'.lt hr'.mounted hdnp track sector hfree (hu.imp_right And.left),
    dnpNext_finds hco hr' hdnp hfree (hu.imp_right And.right)⟩

/-- A DNP image with three tracks, all of whose sectors on one track are free. -/
def freeTrack (track : ℕ) : State where
  partition _ := ⟨⟨.dnp, false⟩, { dnpparam with lastTrack := 3 },
    fun o => if 512 + 32 * track ≤ o ∧ o < 544 + 32 * track then 0xff else 0, true⟩
  maxPart := 1
  bamBuffer := ⟨255, 0, 0, false, fun _ => 0, 0⟩
  bamBuffer2 := none
  errorcache := ⟨255, 0, fun _ => 0⟩
  scratch _ := 0
  error := ⟨0, 0, 0⟩
  io _ := .ok
  sysFree _ := none

theorem freeTrack_started (track : ℕ) : Started (freeTrack track) :=
  ⟨rfl, (by decide : 1 ≤ 255), ⟨rfl, rfl⟩, by rintro _ ⟨⟩⟩

theorem freeTrack_inRange (track : ℕ) : InRange (freeTrack track) 0 1 0 :=
  ⟨(by decide : 0 < 1), ⟨196608, [],
    (by decide : imageFormat 196608 [] = some (⟨.dnp, false⟩, { dnpparam with lastTrack := 3 }))⟩,
    (by decide : ValidTS .dnp 3 1 0)⟩

/-- The witness of `dnpExact_iff`: a sector of the second track is free. -/
theorem freeTrack_exact : DnpExact (freeTrack 2) 0 1 0 := by
  refine (dnpExact_iff (freeTrack_started 2).coherent (freeTrack_inRange 2) (by decide)).mpr
    ⟨2, ⟨0, (by decide : ValidTS .dnp 3 2 0), ?_⟩, .inl (by decide)⟩
  rw [(freeTrack_started 2).through]
  decide

/-- With all sectors of the last track free, and no others, a search that starts elsewhere finds
none. -/
theorem freeTrack_not_exact : Coherent (freeTrack 3) ∧ InRange (freeTrack 3) 0 1 0 ∧
    ((freeTrack 3).through 0).HasFree 3 ∧ ¬DnpExact (freeTrack 3) 0 1 0 := by
  have hs := (freeTrack_started 3).coherent
  have hr := freeTrack_inRange 3
  have hdnp : (freeTrack 3).isDnp 0 = true := by decide
  refine ⟨hs, hr, ⟨0, (by decide : ValidTS .dnp 3 3 0), ?_⟩, fun h => ?_⟩
  · rw [(freeTrack_started 3).through]
    decide
  · obtain ⟨u, hfree, hu⟩ := h.exists_free hs hr hdnp
    have hrange : 1 ≤ u ∧ u ≤ 3 := hasFree_range hfree
    have hcount := ((dnp_consistent hdnp hr.mounted).hasFree_iff u).mpr hfree
    rw [(freeTrack_started 3).through] at hcount
    have hlast : (freeTrack 3).lastTrack 0 = 3 := rfl
    obtain rfl | rfl : u = 1 ∨ u = 2 := by omega
    · exact hcount (by decide +kernel)
    · exact hcount (by decide +kernel)

end NoDiskEmu.Dxx
