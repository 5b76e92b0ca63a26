import NoDiskEmu.Dxx.Alloc

/-! When the search for the next sector comes to an end. -/

namespace NoDiskEmu.Dxx

open Library

variable {s s₀ : State} {part track : ℕ}

/-- A state that the calls on the BAM of `s₀` lead to, when they only look at it. -/
structure Looking (s₀ s : State) : Prop where
  coherent : Coherent s
  keeps : Keeps s₀ s

theorem Looking.refl (hs : Coherent s) : Looking s s := ⟨hs, Keeps.refl s⟩

theorem Looking.lt (h : Looking s₀ s) (hlt : part < s₀.maxPart) : part < s.maxPart := by
  rw [h.keeps.maxPart]
  exact hlt

theorem Looking.mounted (h : Looking s₀ s) (hm : (s₀.partition part).Mounted) :
    (s.partition part).Mounted := (h.keeps.toSameFormat.mounted part).mpr hm

theorem Looking.param (h : Looking s₀ s) : s.param part = s₀.param part := h.keeps.d64data part

theorem Looking.sectorsFree (h : Looking s₀ s) (hlt : part < s₀.maxPart)
    (hm : (s₀.partition part).Mounted) (track : ℕ) :
    ∃ s', sectorsFree s part track = ((s₀.through part).sectorsFree track, s') ∧ Looking s₀ s' := by
  obtain ⟨s', hfree, hco, hkeep⟩ := sectorsFree_ok h.coherent (h.lt hlt) (h.mounted hm) track
  rw [h.keeps.through] at hfree
  exact ⟨s', hfree, hco, h.keeps.trans hkeep⟩

theorem Looking.isFree (h : Looking s₀ s) {sector : ℕ} (hr : InRange s₀ part track sector) :
    ∃ s', isFree s part track sector = (if (s₀.through part).isFree track sector then 1 else 0, s') ∧
      Looking s₀ s' := by
  obtain ⟨s', hfree, hco, hkeep⟩ := isFree_ok h.coherent (hr.sameFormat h.keeps.toSameFormat).inBuffer
  rw [h.keeps.through] at hfree
  exact ⟨s', hfree, hco, h.keeps.trans hkeep⟩

/-! ### DNP images -/

/-- The walk of the track loop on a DNP image: `free` counts the free sectors of a track. -/
def dnpWalk (free : ℕ → ℕ) (last track x : ℕ) : Option ℕ :=
  if free x ≠ 0 then none
  else
    let next := (x + 1) % 256
    let next := if next = last ∨ next = 0 then 1 else next
    if next = track then none else some next

/-- The track loop on a DNP image walks along the tracks. -/
theorem ends_dnpTrackRound_iff (h : Looking s₀ s) (hlt : part < s₀.maxPart)
    (hm : (s₀.partition part).Mounted) (x : ℕ) :
    Walk.Ends (Walk.rounds (dnpTrackRound part track)) (x, s) ↔
      Walk.Ends (dnpWalk (s₀.through part).sectorsFree (s₀.lastTrack part) track) x := by
  refine Walk.ends_iff_of_simulates (fun y x => y.1 = x ∧ Looking s₀ y.2) ?_ ⟨rfl, h⟩
  rintro ⟨x, s⟩ _ ⟨rfl, h⟩
  obtain ⟨s', hfree, hlook⟩ := h.sectorsFree hlt hm x
  have hlast : s'.lastTrack part = s₀.lastTrack part := by rw [hlook.keeps.lastTrack]
  rw [Walk.rounds, dnpTrackRound, dnpWalk, hfree]
  dsimp only
  rw [hlast]
  by_cases hzero : (s₀.through part).sectorsFree x ≠ 0
  · rw [if_pos hzero, if_pos hzero]
    exact .inl ⟨rfl, rfl⟩
  · rw [if_neg hzero, if_neg hzero]
    generalize (if (x + 1) % 256 = s₀.lastTrack part ∨ (x + 1) % 256 = 0 then 1 else (x + 1) % 256) = next
    by_cases hback : next = track
    · rw [if_pos hback, if_pos hback]
      exact .inl ⟨rfl, rfl⟩
    · rw [if_neg hback, if_neg hback]
      exact .inr ⟨_, _, rfl, rfl, rfl, hlook⟩

section

variable {free : ℕ → ℕ} {last : ℕ}

/-- A step of the walk goes to the next track, or from the track before the last one and from 255
to track 1. -/
theorem dnpWalk_step {x y : ℕ} (hx : x ≤ 255) (h : dnpWalk free last track x = some y) :
    free x = 0 ∧ y ≠ track ∧
      ((x + 1 = last ∨ x = 255) ∧ y = 1 ∨ x + 1 ≠ last ∧ x ≠ 255 ∧ y = x + 1) := by
  rw [dnpWalk] at h
  split at h
  · cases h
  · next hfree =>
    dsimp only at h
    generalize hnext : (if (x + 1) % 256 = last ∨ (x + 1) % 256 = 0 then 1 else (x + 1) % 256) = next at h
    split at h
    · cases h
    · next hback =>
      cases h
      refine ⟨by omega, hback, ?_⟩
      split at hnext <;> omega

/-- From a track before the last one the walk gets back to it. -/
theorem ends_dnpWalk_of_lt (h1 : 1 ≤ track) (hlt : track < last) (hlast : last ≤ 255) :
    Walk.Ends (dnpWalk free last track) track := by
  refine Walk.ends_of_measure (I := fun x => 1 ≤ x ∧ x < last)
    (fun x => if track ≤ x then last - x + track else track - x) (fun x y hx hxy => ?_) ⟨h1, hlt⟩
  have hstep := dnpWalk_step (by omega) hxy
  split <;> split <;> omega

theorem ends_dnpWalk_of_single : Walk.Ends (dnpWalk free 1 1) 1 := by
  refine Walk.ends_of_measure (I := fun x => 1 ≤ x ∧ x ≤ 255) (fun x => 256 - x)
    (fun x y hx hxy => ?_) ⟨by decide, by decide⟩
  have hstep := dnpWalk_step hx.2 hxy
  omega

/-- From the last track the walk comes to a track with free sectors, if there is one. -/
theorem ends_dnpWalk_of_free {t : ℕ} (ht1 : 1 ≤ t) (ht : t < last) (hlast : last ≤ 255)
    (hfree : free t ≠ 0) : Walk.Ends (dnpWalk free last last) last := by
  refine Walk.ends_of_measure (I := fun x => 1 ≤ x ∧ x ≤ 255)
    (fun x => if last ≤ x then 1024 - x else if x ≤ t then t - x else last - x + t)
    (fun x y hx hxy => ?_) ⟨by omega, hlast⟩
  obtain ⟨hzero, hne, hstep⟩ := dnpWalk_step hx.2 hxy
  have hxt : x ≠ t := by
    rintro rfl
    exact hfree hzero
  repeat' split
  all_goals omega

/-- From the last track of a full disk the walk never comes to an end: it goes round the tracks
before the last one. -/
theorem not_ends_dnpWalk (h2 : 2 ≤ last) (hfree : ∀ t, free t = 0) :
    ¬Walk.Ends (dnpWalk free last last) last := by
  refine Walk.not_ends_of_closed (P := fun _ => True) (fun x _ => ?_) trivial
  rw [dnpWalk, if_neg (not_not.mpr (hfree x))]
  dsimp only
  rw [if_neg]
  · exact ⟨_, rfl, trivial⟩
  · split <;> omega

/-- The walk along the tracks ends, but for the last track of a disk that is full. -/
theorem ends_dnpWalk_iff (hout : ∀ t, t < 1 ∨ t > last → free t = 0) (h1 : 1 ≤ track)
    (hle : track ≤ last) (hlast : last ≤ 255) :
    Walk.Ends (dnpWalk free last track) track ↔
      ¬(track = last ∧ 2 ≤ last ∧ ∀ t, free t = 0) := by
  rcases Nat.lt_or_eq_of_le hle with hlt | rfl
  · exact ⟨fun _ h => absurd h.1 (by omega), fun _ => ends_dnpWalk_of_lt h1 hlt hlast⟩
  · refine ⟨fun hends h => not_ends_dnpWalk h.2.1 h.2.2 hends, fun h => ?_⟩
    by_cases hone : track = 1
    · subst hone
      exact ends_dnpWalk_of_single
    · have hsome : ∃ t, free t ≠ 0 := by
        by_contra hall
        push Not at hall
        exact h ⟨rfl, by omega, hall⟩
      obtain ⟨t, ht⟩ := hsome
      have hin : ¬(t < 1 ∨ t > track) := fun hrange => ht (hout t hrange)
      by_cases hsame : t = track
      · subst hsame
        exact Walk.ends_of_none (if_pos ht)
      · exact ends_dnpWalk_of_free (by omega) (by omega) hlast ht

end

/-- A track of a DNP image that has free sectors in its count has one in its bitmap. -/
theorem Partition.exists_free {p : Partition} (hdnp : p.imagetype = ⟨.dnp, false⟩)
    (h : p.sectorsFree track ≠ 0) : ∃ q < 256, p.isFree track q = true := by
  have hsum : freeCount p.imagetype.type p.image (p.bamAddress track .freecount) ≠ 0 := by
    intro hzero
    apply h
    rw [Partition.sectorsFree, hzero]
    split <;> rfl
  have hbyte : ∃ i < 32, p.image (p.bamAddress track .freecount + i) ≠ 0 := by
    by_contra hnone
    push Not at hnone
    apply hsum
    rw [freeCount, if_pos (by rw [hdnp]), List.sum_eq_zero_iff]
    intro n hn
    obtain ⟨i, hi, rfl⟩ := List.mem_map.mp hn
    rw [hnone i (List.mem_range.mp hi)]
    rfl
  obtain ⟨i, hi, hne⟩ := hbyte
  obtain ⟨k, hk, hset⟩ := Bits.exists_test_highMask hne
  have haddr : p.bamAddress track .bitfield = p.bamAddress track .freecount := by
    rw [Partition.bamAddress, Partition.bamAddress, hdnp]
    rfl
  have hmask : p.isDnp = true := by
    rw [Partition.isDnp, hdnp]
    rfl
  refine ⟨8 * i + k, by omega, ?_⟩
  rw [Partition.isFree, Partition.bitAddress, haddr, sectorMask, if_pos hmask,
    show (8 * i + k) / 8 = i by omega, show (8 * i + k) % 8 = k by omega]
  exact hset

/-- The sector loop on a DNP image comes to a free sector. -/
theorem dnpSectorRound_terminates (h : Looking s₀ s) (hdnp : s₀.isDnp part = true)
    (hlt : part < s₀.maxPart) (hm : (s₀.partition part).Mounted)
    (hfree : (s₀.through part).sectorsFree track ≠ 0) {x : ℕ} (hx : x < 256) :
    Walk.Terminates (dnpSectorRound part track) (x, s) := by
  have htype : (s₀.partition part).imagetype = ⟨.dnp, false⟩ := by simpa [State.isDnp] using hdnp
  obtain ⟨q, hq, hset⟩ := Partition.exists_free (p := s₀.through part) htype hfree
  have hin : ¬(track < 1 ∨ track > s₀.lastTrack part) := fun hout => hfree (if_pos hout)
  refine Walk.terminates_of_measure (I := fun y => y.1 < 256 ∧ Looking s₀ y.2)
    (fun y => (q + 256 - y.1) % 256) ?_ ⟨hx, h⟩
  rintro ⟨x, s⟩ y ⟨hx, h⟩ hround
  dsimp only at hx h
  have hvalid : ValidTS (s₀.type part) (s₀.lastTrack part) track x := by
    refine ⟨by omega, by omega, ?_⟩
    rw [State.type, htype]
    exact hx
  obtain ⟨s', hisfree, hlook⟩ := h.isFree ⟨hlt, hm, hvalid⟩
  rw [dnpSectorRound, hisfree] at hround
  dsimp only at hround
  split at hround
  · cases hround
  · next hbit =>
    cases hround
    have hne : x ≠ q := by
      rintro rfl
      rw [hset] at hbit
      exact hbit (by decide)
    exact ⟨⟨Nat.mod_lt _ (by decide), hlook⟩, by dsimp only; omega⟩

/-- What the track loop on a DNP image finds. -/
theorem dnpTrackRound_result (hs : Coherent s) (hlt : part < s.maxPart)
    (hm : (s.partition part).Mounted) {fuel x : ℕ} {r : Option ℕ × State}
    (h : Walk.loop (dnpTrackRound part track) fuel (x, s) = some r) :
    Looking s r.2 ∧ ∀ newtrack, r.1 = some newtrack → (s.through part).sectorsFree newtrack ≠ 0 := by
  refine Walk.loop_result (I := fun y => Looking s y.2)
    (Q := fun r => Looking s r.2 ∧ ∀ newtrack, r.1 = some newtrack →
      (s.through part).sectorsFree newtrack ≠ 0) (fun y y' hy hround => ?_)
    (fun y r hy hround => ?_) (Looking.refl hs) h
  · obtain ⟨s', hfree, hlook⟩ := hy.sectorsFree hlt hm y.1
    rw [dnpTrackRound, hfree] at hround
    dsimp only at hround
    split at hround
    · cases hround
    · generalize (if (y.1 + 1) % 256 = s'.lastTrack part ∨ (y.1 + 1) % 256 = 0 then 1
        else (y.1 + 1) % 256) = next at hround
      split at hround
      · cases hround
      · cases hround
        exact hlook
  · obtain ⟨s', hfree, hlook⟩ := hy.sectorsFree hlt hm y.1
    rw [dnpTrackRound, hfree] at hround
    dsimp only at hround
    split at hround
    · next hne =>
      cases hround
      refine ⟨hlook, fun newtrack hnew => ?_⟩
      cases hnew
      exact hne
    · generalize (if (y.1 + 1) % 256 = s'.lastTrack part ∨ (y.1 + 1) % 256 = 0 then 1
        else (y.1 + 1) % 256) = next at hround
      split at hround
      · cases hround
        exact ⟨hlook, fun newtrack hnew => nomatch hnew⟩
      · cases hround

/-- The track is the last one of a DNP image that has no free sector. -/
def FullFromLast (s : State) (part track : ℕ) : Prop :=
  track = s.lastTrack part ∧ 2 ≤ s.lastTrack part ∧ ∀ t, (s.through part).sectorsFree t = 0

theorem dnpNextSector_terminates_iff {sector : ℕ} (hs : Coherent s) (hdnp : s.isDnp part = true)
    (hr : InRange s part track sector) :
    (∃ fuel, (dnpNextSector fuel part track sector s).isSome) ↔ ¬FullFromLast s part track := by
  have htype : s.type part = .dnp := by
    have himage : (s.partition part).imagetype = ⟨.dnp, false⟩ := by simpa [State.isDnp] using hdnp
    rw [State.type, himage]
  have hlast : s.lastTrack part ≤ 255 := by
    have hbound := hr.mounted.lastTrack
    rw [show (s.partition part).imagetype.type = .dnp from htype] at hbound
    exact hbound
  have hsector : sector < 256 := by
    have hlt := hr.valid.2.2
    rwa [htype] at hlt
  have hwalk : Walk.Terminates (dnpTrackRound part track) (track, s) ↔ ¬FullFromLast s part track := by
    rw [Walk.terminates_iff_ends, ends_dnpTrackRound_iff (Looking.refl hs) hr.lt hr.mounted]
    exact ends_dnpWalk_iff (fun t ht => if_pos ht) hr.valid.1 hr.valid.2.1 hlast
  rw [← hwalk]
  constructor
  · rintro ⟨fuel, h⟩
    refine ⟨fuel, ?_⟩
    rw [dnpNextSector] at h
    cases hloop : Walk.loop (dnpTrackRound part track) fuel (track, s) with
    | none =>
      rw [hloop] at h
      cases h
    | some r => rfl
  · rintro ⟨fuel, h⟩
    obtain ⟨⟨new, s'⟩, hloop⟩ := Option.isSome_iff_exists.mp h
    obtain ⟨hlook, hnew⟩ := dnpTrackRound_result hs hr.lt hr.mounted hloop
    cases new with
    | none => exact ⟨fuel, by rw [dnpNextSector, hloop]; rfl⟩
    | some newtrack =>
      obtain ⟨fuel', h'⟩ := dnpSectorRound_terminates hlook hdnp hr.lt hr.mounted (hnew newtrack rfl)
        (x := if newtrack = track then sector else 0) (by split <;> omega)
      obtain ⟨r, hloop'⟩ := Option.isSome_iff_exists.mp h'
      refine ⟨max fuel fuel', ?_⟩
      rw [dnpNextSector, Walk.loop_mono hloop (Nat.le_max_left _ _)]
      dsimp only
      rw [Walk.loop_mono hloop' (Nat.le_max_right _ _)]
      rfl

/-! ### The other formats -/

/-- The tracks of the formats other than DNP. -/
theorem Partition.Mounted.tracks {p : Partition} (h : p.Mounted) (hdnp : p.imagetype ≠ ⟨.dnp, false⟩) :
    1 ≤ p.d64data.dirTrack ∧ p.d64data.dirTrack ≤ 40 ∧ p.d64data.lastTrack ≤ 154 := by
  obtain ⟨fsize, name, h⟩ := h
  rcases imageFormat_cases h with hmem | ⟨-, hit, -⟩
  · have hall : ∀ f ∈ fixedFormats, 1 ≤ f.2.2.dirTrack ∧ f.2.2.dirTrack ≤ 40 ∧ f.2.2.lastTrack ≤ 154 := by
      decide
    exact hall _ hmem
  · exact absurd hit hdnp

/-- The steps that are left in one try: down to track 0, or up to the last track. -/
def stepsLeft (dir track : ℕ) : ℕ := if track < dir then track else 512 - track

theorem stepsLeft_le {dir track : ℕ} (htrack : track ≤ 255) : stepsLeft dir track ≤ 512 := by
  rw [stepsLeft]
  split <;> omega

/-- A step of the track loop moves away from the directory track, or begins a new try. -/
theorem Search.step_cases {type : DxxType} {p : Param} {v : Search} (hdir : 1 ≤ p.dirTrack)
    (hdir' : p.dirTrack ≤ 40) (hlast : p.lastTrack ≤ 154) (hv : v.track ≤ 255) :
    (v.step type p).track ≤ 255 ∧
      (v.tries < (v.step type p).tries ∨ (v.step type p).tries = v.tries ∧
        stepsLeft p.dirTrack (v.step type p).track < stepsLeft p.dirTrack v.track) := by
  rw [Search.step, stepsLeft, stepsLeft]
  dsimp only
  by_cases hbelow : v.track < p.dirTrack
  · rw [if_pos hbelow]
    repeat' split
    all_goals dsimp only at *
    all_goals omega
  · rw [if_neg hbelow]
    generalize hnext : (if type = .d71 ∧ (v.track + 1) % 256 = 53 then ((v.track + 1) % 256 + 1) % 256
      else (v.track + 1) % 256) = next
    have hcase : next = 0 ∨ v.track < next ∧ next ≤ 255 := by
      split at hnext <;> omega
    repeat' split
    all_goals dsimp only at *
    all_goals omega

theorem trackRound_terminates (hs : Coherent s) (hlt : part < s.maxPart)
    (hm : (s.partition part).Mounted) (hdnp : ¬s.isDnp part = true) {v : Search}
    (hv : v.track ≤ 255) : Walk.Terminates (trackRound part) (v, s) := by
  obtain ⟨hdir, hdir', hlast⟩ := hm.tracks (by simpa [State.isDnp] using hdnp)
  refine Walk.terminates_of_measure (I := fun y => y.1.track ≤ 255 ∧ Looking s y.2)
    (fun y => (3 - y.1.tries) * 1024 + stepsLeft (s.param part).dirTrack y.1.track)
    (fun y y' hy hround => ?_) ⟨hv, Looking.refl hs⟩
  obtain ⟨s', hfree, hlook⟩ := hy.2.sectorsFree hlt hm y.1.track
  rw [trackRound] at hround
  split at hround
  · next htries =>
    rw [hfree] at hround
    dsimp only at hround
    split at hround
    · cases hround
      rw [hlook.param]
      obtain ⟨hle, hstep⟩ : _ ∧ _ :=
        Search.step_cases (p := s.param part) (v := y.1) hdir hdir' hlast hy.1
      refine ⟨⟨hle, hlook⟩, ?_⟩
      dsimp only
      have hmax : stepsLeft (s.param part).dirTrack _ ≤ 512 := stepsLeft_le hle
      rcases hstep with hmore | ⟨hsame, hless⟩
      · omega
      · rw [hsame]
        omega
    · cases hround
  · cases hround

/-- The sector loop ends with `tries`, whatever the BAM says. -/
theorem sectorRound_terminates (part : ℕ) {v : Search} (hv : v.tries ≤ 255) (s : State) :
    Walk.Terminates (sectorRound part) (v, s) := by
  refine Walk.terminates_of_measure (I := fun y => y.1.tries ≤ 255) (fun y => y.1.tries)
    (fun y y' hy hround => ?_) hv
  rw [sectorRound] at hround
  split at hround
  · split at hround
    · cases hround
      dsimp only
      omega
    · cases hround
  · cases hround

theorem searchNextSector_terminates (hs : Coherent s) (hlt : part < s.maxPart)
    (hm : (s.partition part).Mounted) (hdnp : ¬s.isDnp part = true) (htrack : track ≤ 255)
    (sector interleave : ℕ) :
    ∃ fuel, (searchNextSector fuel part track sector interleave s).isSome := by
  obtain ⟨fuel, h⟩ := trackRound_terminates hs hlt hm hdnp (v := ⟨track, sector, 0⟩) htrack
  obtain ⟨⟨v, s'⟩, hloop⟩ := Option.isSome_iff_exists.mp h
  obtain ⟨fuel', h'⟩ := sectorRound_terminates part
    (v := ⟨v.track, interleaved (s'.type part) interleave v, 99⟩) (show 99 ≤ 255 by decide) s'
  obtain ⟨⟨v', s''⟩, hloop'⟩ := Option.isSome_iff_exists.mp h'
  refine ⟨max fuel fuel', ?_⟩
  rw [searchNextSector, Walk.loop_mono hloop (Nat.le_max_left _ _)]
  dsimp only
  rw [Walk.loop_mono hloop' (Nat.le_max_right _ _)]
  split
  · rfl
  · dsimp only
    split <;> rfl

/-- The search for the next sector ends, but for a full DNP image that it begins on the last track
of. -/
theorem getNextSector_terminates_iff {sector : ℕ} (hs : Coherent s)
    (hr : InRange s part track sector) :
    (∃ fuel, (getNextSector fuel part track sector s).isSome) ↔
      ¬(s.isDnp part = true ∧ FullFromLast s part track) := by
  by_cases hdnp : s.isDnp part = true
  · have heq : ∀ fuel, getNextSector fuel part track sector s = dnpNextSector fuel part track sector s :=
      fun fuel => if_pos hdnp
    simp only [heq, hdnp, true_and]
    exact dnpNextSector_terminates_iff hs hdnp hr
  · refine ⟨fun _ h => hdnp h.1, fun _ => ?_⟩
    have htrack : track ≤ 255 := by
      refine (hr.valid.2.1.trans hr.mounted.lastTrack).trans ?_
      cases (s.partition part).imagetype.type <;> decide
    by_cases hdir : track = (s.param part).dirTrack
    · obtain ⟨s', hfree, hlook⟩ := (Looking.refl hs).sectorsFree hr.lt hr.mounted track
      obtain ⟨fuel, h⟩ := searchNextSector_terminates hlook.coherent (hlook.lt hr.lt)
        (hlook.mounted hr.mounted) (by rwa [State.isDnp, hlook.keeps.imagetype part]) htrack sector
        (s.param part).dirInterleave
      refine ⟨fuel, ?_⟩
      rw [getNextSector, if_neg hdnp, if_pos hdir, hfree]
      dsimp only
      split
      · rfl
      · exact h
    · obtain ⟨fuel, h⟩ := searchNextSector_terminates hs hr.lt hr.mounted hdnp htrack sector
        (s.param part).fileInterleave
      refine ⟨fuel, ?_⟩
      rw [getNextSector, if_neg hdnp, if_neg hdir]
      exact h

/-! ### More fuel -/

variable {fuel fuel' sector : ℕ} {r : ℕ × ℕ × ℕ × State}

theorem dnpNextSector_mono (hle : fuel ≤ fuel')
    (h : dnpNextSector fuel part track sector s = some r) :
    dnpNextSector fuel' part track sector s = some r := by
  rw [dnpNextSector] at h ⊢
  cases hloop : Walk.loop (dnpTrackRound part track) fuel (track, s) with
  | none =>
    rw [hloop] at h
    cases h
  | some x =>
    obtain ⟨new, s'⟩ := x
    rw [hloop] at h
    rw [Walk.loop_mono hloop hle]
    cases new with
    | none => exact h
    | some newtrack =>
      dsimp only at h ⊢
      cases hloop' : Walk.loop (dnpSectorRound part newtrack) fuel
        (if newtrack = track then sector else 0, s') with
      | none =>
        rw [hloop'] at h
        cases h
      | some x' =>
        rw [hloop'] at h
        rw [Walk.loop_mono hloop' hle]
        exact h

theorem searchNextSector_mono {interleave : ℕ} (hle : fuel ≤ fuel')
    (h : searchNextSector fuel part track sector interleave s = some r) :
    searchNextSector fuel' part track sector interleave s = some r := by
  rw [searchNextSector] at h ⊢
  cases hloop : Walk.loop (trackRound part) fuel (⟨track, sector, 0⟩, s) with
  | none =>
    rw [hloop] at h
    cases h
  | some x =>
    obtain ⟨v, s'⟩ := x
    rw [hloop] at h
    rw [Walk.loop_mono hloop hle]
    dsimp only at h ⊢
    by_cases htries : v.tries = 3
    · rw [if_pos htries] at h ⊢
      exact h
    · rw [if_neg htries] at h ⊢
      cases hloop' : Walk.loop (sectorRound part) fuel
        (⟨v.track, interleaved (s'.type part) interleave v, 99⟩, s') with
      | none =>
        rw [hloop'] at h
        cases h
      | some x' =>
        rw [hloop'] at h
        rw [Walk.loop_mono hloop' hle]
        exact h

theorem getNextSector_mono (hle : fuel ≤ fuel')
    (h : getNextSector fuel part track sector s = some r) :
    getNextSector fuel' part track sector s = some r := by
  rw [getNextSector] at h ⊢
  split
  · next hdnp =>
    rw [if_pos hdnp] at h
    exact dnpNextSector_mono hle h
  · next hdnp =>
    rw [if_neg hdnp] at h
    split
    · next hdir =>
      rw [if_pos hdir] at h
      dsimp only at h ⊢
      split
      · next hfree =>
        rw [if_pos hfree] at h
        exact h
      · next hfree =>
        rw [if_neg hfree] at h
        exact searchNextSector_mono hle h
    · next hdir =>
      rw [if_neg hdir] at h
      exact searchNextSector_mono hle h

end NoDiskEmu.Dxx
