import NoDiskEmu.Dxx.Links
import NoDiskEmu.Dxx.Search

/-! When the loops along the links of an image come to an end. -/

namespace NoDiskEmu.Dxx

open Library

variable {s s₀ : State} {part : ℕ}

/-! ### Reading a directory -/

/-- The entries that `nextdirentry` goes through. -/
def entryRounds (part : ℕ) (x : D64dh × State) : Option (D64dh × State) :=
  let r := nextdirentry part x.1 x.2
  if r.1 = 0 then some r.2 else none

theorem ends_entryRounds_iff (h : Reading s₀ part s) (hs : s₀.NoFault)
    (hm : (s₀.partition part).Mounted) (dh : D64dh) :
    Walk.Ends (entryRounds part) (dh, s) ↔
      Walk.Ends (walkEntries s₀ part fun _ => false) dh := by
  refine Walk.ends_iff_of_simulates (fun x dh => x.1 = dh ∧ Reading s₀ part x.2) ?_ ⟨rfl, h⟩
  rintro ⟨d, s⟩ _ ⟨rfl, h⟩
  obtain ⟨res, dh', s', heq, hreading, hzero, hne, -, -⟩ := nextdirentry_reading h hs hm d
  rw [entryRounds, walkEntries, heq]
  dsimp only
  by_cases hres : res = 0
  · rw [if_pos hres, (hzero hres).1]
    exact .inr ⟨_, _, rfl, rfl, rfl, hreading⟩
  · rw [if_neg hres, hne hres]
    exact .inl ⟨rfl, rfl⟩

/-- What a call of `d64_readdir` leaves of the walk along the entries. -/
theorem readdir_rounds {fuel : ℕ} {x : D64dh × State} {r : ℤ × D64dh × State}
    (h : Walk.loop (readdirRound part) fuel x = some r) :
    (r.1 ≠ 0 → Walk.Ends (entryRounds part) x) ∧
      (Walk.Ends (entryRounds part) r.2 → r.1 = 0 → Walk.Ends (entryRounds part) x) := by
  induction fuel generalizing x with
  | zero => cases h
  | succ fuel ih =>
    rw [Walk.loop] at h
    by_cases hres : (nextdirentry part x.1 x.2).1 = 0
    · have hnext : entryRounds part x = some (nextdirentry part x.1 x.2).2 := if_pos hres
      rw [Walk.ends_iff_of_some hnext]
      by_cases htype : (nextdirentry part x.1 x.2).2.2.scratch DIR_OFS_FILE_TYPE ≠ 0
      · rw [show readdirRound part x = .inl (nextdirentry part x.1 x.2) by
          rw [readdirRound, if_neg (not_not.mpr hres), if_pos htype]] at h
        cases h
        exact ⟨fun hne => absurd hres hne, fun hends _ => hends⟩
      · rw [show readdirRound part x = .inr (nextdirentry part x.1 x.2).2 by
          rw [readdirRound, if_neg (not_not.mpr hres), if_neg htype]] at h
        exact ih h
    · rw [show readdirRound part x = .inl (nextdirentry part x.1 x.2) by
        rw [readdirRound, if_pos hres]] at h
      cases h
      exact ⟨fun _ => Walk.ends_of_none (if_neg hres), fun _ hzero => absurd hzero hres⟩

theorem readAll_mono {fuel fuel' : ℕ} {x : D64dh × State} {r : ℤ × D64dh × State}
    (h : readAll part fuel x = some r) (hle : fuel ≤ fuel') : readAll part fuel' x = some r := by
  induction fuel generalizing fuel' x with
  | zero => cases h
  | succ fuel ih =>
    obtain ⟨fuel', rfl⟩ : ∃ m, fuel' = m + 1 := ⟨fuel' - 1, by omega⟩
    rw [readAll] at h ⊢
    cases hloop : Walk.loop (readdirRound part) (fuel + 1) x with
    | none =>
      rw [hloop] at h
      cases h
    | some r' =>
      rw [hloop] at h
      rw [Walk.loop_mono hloop hle]
      dsimp only at h ⊢
      split
      · next hzero =>
        rw [if_pos hzero] at h
        exact ih h (by omega)
      · next hne => rwa [if_neg hne] at h

theorem readAll_terminates_iff (x : D64dh × State) :
    (∃ fuel, (readAll part fuel x).isSome) ↔ Walk.Ends (entryRounds part) x := by
  constructor
  · rintro ⟨fuel, h⟩
    induction fuel generalizing x with
    | zero => cases h
    | succ fuel ih =>
      rw [readAll] at h
      cases hloop : Walk.loop (readdirRound part) (fuel + 1) x with
      | none =>
        rw [hloop] at h
        cases h
      | some r =>
        rw [hloop] at h
        dsimp only at h
        obtain ⟨hne, hzero⟩ := readdir_rounds hloop
        split at h
        · next hres => exact hzero (ih r.2 h) hres
        · next hres => exact hne hres
  · intro h
    induction h with
    | @intro x hall ih =>
      by_cases hres : (nextdirentry part x.1 x.2).1 = 0
      · obtain ⟨fuel, hfuel⟩ := ih (nextdirentry part x.1 x.2).2 (if_pos hres)
        refine ⟨fuel + 1, ?_⟩
        rw [readAll, Walk.loop]
        by_cases htype : (nextdirentry part x.1 x.2).2.2.scratch DIR_OFS_FILE_TYPE ≠ 0
        · rw [show readdirRound part x = .inl (nextdirentry part x.1 x.2) by
            rw [readdirRound, if_neg (not_not.mpr hres), if_pos htype]]
          dsimp only
          rwa [if_pos hres]
        · -- The call goes on with the next entry, on which the calls end with the same fuel.
          rw [show readdirRound part x = .inr (nextdirentry part x.1 x.2).2 by
            rw [readdirRound, if_neg (not_not.mpr hres), if_neg htype]]
          cases fuel with
          | zero => cases hfuel
          | succ fuel =>
            rw [readAll] at hfuel
            dsimp only
            cases hloop : Walk.loop (readdirRound part) (fuel + 1) (nextdirentry part x.1 x.2).2 with
            | none =>
              rw [hloop] at hfuel
              cases hfuel
            | some r =>
              rw [hloop] at hfuel
              dsimp only at hfuel ⊢
              split
              · next hzero =>
                rw [if_pos hzero] at hfuel
                obtain ⟨r', hr'⟩ := Option.isSome_iff_exists.mp hfuel
                rw [readAll_mono hr' (Nat.le_succ fuel)]
                rfl
              · rfl
      · refine ⟨1, ?_⟩
        rw [readAll, Walk.loop, show readdirRound part x = .inl (nextdirentry part x.1 x.2) by
          rw [readdirRound, if_pos hres]]
        dsimp only
        rw [if_neg hres]
        rfl

/-- The first sector of the directory whose `path_t` has the given track and sector. -/
def dirStart (s : State) (part track sector : ℕ) : ℕ × ℕ :=
  if s.isDnp part then s.linkBytes part (track, sector) else (track, sector)

theorem d64Opendir_eq (hs : s.NoFault) (track sector : ℕ) :
    (d64Opendir part track sector s).2 =
      (⟨(dirStart s part track sector).1, (dirStart s part track sector).2, 0⟩, s) := by
  rw [d64Opendir, dirStart]
  split
  · rw [imageRead_ok hs]
    rfl
  · rfl

theorem reading_self (hcached : s.Cached part) : Reading s part s :=
  ⟨⟨s.errorcache, s.scratch, s.error, rfl⟩, hcached⟩

theorem readAll_opendir_iff (hs : s.NoFault) (hm : (s.partition part).Mounted)
    (hcached : s.Cached part) (track sector : ℕ) :
    (∃ fuel, (readAll part fuel (d64Opendir part track sector s).2).isSome) ↔
      ¬Walk.Revisits (walkSectors s part fun _ => false) (dirStart s part track sector) := by
  rw [readAll_terminates_iff, d64Opendir_eq hs,
    ends_entryRounds_iff (reading_self hcached) hs hm, ends_walkEntries_iff (Nat.zero_le 8)
      (fun e he => absurd he (Nat.not_lt_zero e)), ends_walkSectors_iff]

/-! ### Appending to a file -/

/-- The buffer after the read of sector `x`. -/
structure HasRead (s₀ : State) (part : ℕ) (x : ℕ × ℕ) (y : FileBuffer × State) : Prop where
  reading : Reading s₀ part y.2
  part_eq : y.1.part = part
  good : s₀.Readable part x → y.2.error.code = ERROR_OK ∧
    ((y.1.data 0).toNat, (y.1.data 1).toNat) = s₀.linkBytes part x
  bad : ¬s₀.Readable part x → y.2.error.code ≠ ERROR_OK

theorem d64Read_hasRead (h : Reading s₀ part s) (hs : s₀.NoFault)
    (hm : (s₀.partition part).Mounted) (buf : FileBuffer) (hpart : buf.part = part)
    (herror : s.error.code = ERROR_OK) :
    HasRead s₀ part ((buf.data 0).toNat, (buf.data 1).toNat) (d64Read buf s).2 := by
  obtain ⟨s', hread, hreading, -, hgood, hbad⟩ := h.checkedRead hs hm
    ((buf.data 0).toNat, (buf.data 1).toNat) buf.data 256
    (show ERROR_ILLEGAL_TS_LINK ≠ ERROR_OK by decide)
  rw [d64Read, hpart, hread]
  dsimp only
  by_cases hok : s₀.Readable part ((buf.data 0).toNat, (buf.data 1).toNat)
  · rw [if_pos hok, if_pos hok, if_neg (by decide)]
    have hbytes : ∀ i < 256, Memory.write buf.data 0 256
        (fun i => s₀.image part (s₀.offset part (buf.data 0).toNat (buf.data 1).toNat + i)) i =
          s₀.image part (s₀.offset part (buf.data 0).toNat (buf.data 1).toNat + i) :=
      fun i hi => Memory.write_zero hi
    have h0 := hbytes 0 (by decide)
    have h1 := hbytes 1 (by decide)
    have herror' : s'.error.code = ERROR_OK := by rw [hgood hok, herror]
    generalize Memory.write buf.data 0 256 _ = data at h0 h1 ⊢
    have hlink : ((data 0).toNat, (data 1).toNat) =
        s₀.linkBytes part ((buf.data 0).toNat, (buf.data 1).toNat) := by
      rw [h0, h1]
      rfl
    split
    · exact ⟨hreading, rfl, fun _ => ⟨herror', hlink⟩, fun hnot => absurd hok hnot⟩
    · exact ⟨hreading, rfl, fun _ => ⟨herror', hlink⟩, fun hnot => absurd hok hnot⟩
  · rw [if_neg hok, if_neg hok, if_pos (by decide)]
    exact ⟨hreading, rfl, fun h => absurd h hok, hbad⟩

theorem ends_appendRounds_iff (hs : s₀.NoFault) (hm : (s₀.partition part).Mounted) {x : ℕ × ℕ}
    {y : FileBuffer × State} (h : HasRead s₀ part x y) :
    Walk.Ends (Walk.rounds appendRound) y ↔ Walk.Ends (walkSectors s₀ part fun _ => false) x := by
  refine Walk.ends_iff_of_simulates (fun y x => HasRead s₀ part x y) (fun y x h => ?_) h
  rw [walkSectors_of_go fun _ _ => rfl, State.link]
  by_cases hok : s₀.Readable part x
  · obtain ⟨herror, hlink⟩ := h.good hok
    by_cases hlast : (s₀.linkBytes part x).1 = 0
    · have hzero : y.1.data 0 = 0 := by
        rw [← hlink] at hlast
        exact UInt8.toNat_inj.mp hlast
      refine .inl ⟨?_, if_neg fun hboth => hboth.2 hlast⟩
      rw [Walk.rounds, appendRound, if_neg fun hboth => hboth.2 hzero]
      rfl
    · have hnonzero : y.1.data 0 ≠ 0 := by
        intro hzero
        rw [← hlink, hzero] at hlast
        exact hlast rfl
      refine .inr ⟨(d64Read y.1 y.2).2, s₀.linkBytes part x, ?_, if_pos ⟨hok, hlast⟩, ?_⟩
      · rw [Walk.rounds, appendRound, if_pos ⟨herror, hnonzero⟩]
        rfl
      · rw [← hlink]
        exact d64Read_hasRead h.reading hs hm y.1 h.part_eq herror
  · refine .inl ⟨?_, if_neg fun hboth => hok hboth.1⟩
    rw [Walk.rounds, appendRound, if_neg fun hboth => h.bad hok hboth.1]
    rfl

/-- The first sector of the file in a directory entry. -/
def fileStart (s : State) (part : ℕ) (dh : D64dh) : ℕ × ℕ :=
  ((s.image part (entryOffset s part dh + DIR_OFS_TRACK)).toNat,
    (s.image part (entryOffset s part dh + DIR_OFS_SECTOR)).toNat)

theorem d64OpenRead_hasRead (hs : s.NoFault) (hm : (s.partition part).Mounted)
    (hcached : s.Cached part) (dh : D64dh) (buf : FileBuffer) (herror : s.error.code = ERROR_OK) :
    HasRead s part (fileStart s part dh) (d64OpenRead part dh buf s) := by
  obtain ⟨s', hread, hreading, herror', hscratch⟩ := (reading_self hcached).readEntry hs dh
  have hlink : ∀ i < 2, Memory.write buf.data 0 2 (fun i => s'.scratch (DIR_OFS_TRACK + i)) i =
      s.image part (entryOffset s part dh + (DIR_OFS_TRACK + i)) := by
    intro i hi
    rw [Memory.write_zero hi]
    exact hscratch _ (by rw [DIR_OFS_TRACK]; omega)
  have h0 := hlink 0 (by decide)
  have h1 := hlink 1 (by decide)
  rw [d64OpenRead, hread]
  dsimp only
  rw [if_neg (not_not.mpr rfl)]
  have hfile := d64Read_hasRead hreading hs hm { buf with
    data := Memory.write buf.data 0 2 fun i => s'.scratch (DIR_OFS_TRACK + i), part, read := true }
    rfl (by rw [herror', herror])
  dsimp only at hfile
  rw [h0, h1] at hfile
  exact hfile

/-- Nothing clears an error that was there before. -/
theorem d64OpenRead_error (hs : s.NoFault) (hm : (s.partition part).Mounted)
    (hcached : s.Cached part) (dh : D64dh) (buf : FileBuffer) (herror : s.error.code ≠ ERROR_OK) :
    (d64OpenRead part dh buf s).2.error.code ≠ ERROR_OK := by
  obtain ⟨s', hread, hreading, herror', -⟩ := (reading_self hcached).readEntry hs dh
  rw [d64OpenRead, hread]
  dsimp only
  rw [if_neg (not_not.mpr rfl), d64Read]
  dsimp only
  generalize Memory.write buf.data 0 2 _ = data
  obtain ⟨s'', hsector, -, -, hgood, hbad⟩ := hreading.checkedRead hs hm
    ((data 0).toNat, (data 1).toNat) data 256 (show ERROR_ILLEGAL_TS_LINK ≠ ERROR_OK by decide)
  have hcode : s''.error.code ≠ ERROR_OK := by
    by_cases hok : s.Readable part ((data 0).toNat, (data 1).toNat)
    · rwa [hgood hok, herror']
    · exact hbad hok
  rw [hsector]
  dsimp only
  by_cases hok : s.Readable part ((data 0).toNat, (data 1).toNat)
  · rw [if_pos hok, if_pos hok, if_neg (by decide)]
    generalize Memory.write data 0 256 _ = sector
    split <;> exact hcode
  · rw [if_neg hok, if_neg hok, if_pos (by decide)]
    exact hcode

theorem append_terminates_iff (hs : s.NoFault) (hm : (s.partition part).Mounted)
    (hcached : s.Cached part) (timestamp : (ℕ → UInt8) → ℕ → UInt8) (dh : D64dh) (buf : FileBuffer) :
    (∃ fuel, (d64OpenAppend timestamp fuel part dh buf s).isSome) ↔
      ((s.partition part).writable = true → s.error.code = ERROR_OK →
        ¬Walk.Revisits (walkSectors s part fun _ => false) (fileStart s part dh)) := by
  have hloop : (s.partition part).writable = true →
      ((∃ fuel, (d64OpenAppend timestamp fuel part dh buf s).isSome) ↔
        Walk.Terminates appendRound (d64OpenRead part dh buf s)) := by
    intro hwritable
    refine exists_congr fun fuel => ?_
    rw [d64OpenAppend, hwritable, if_neg (by decide)]
    cases Walk.loop appendRound fuel (d64OpenRead part dh buf s) with
    | none => rfl
    | some r =>
      dsimp only
      split <;> rfl
  by_cases hwritable : (s.partition part).writable = true
  · rw [hloop hwritable, Walk.terminates_iff_ends]
    by_cases herror : s.error.code = ERROR_OK
    · rw [ends_appendRounds_iff hs hm (d64OpenRead_hasRead hs hm hcached dh buf herror),
        ends_walkSectors_iff]
      exact ⟨fun h _ _ => h, fun h => h hwritable herror⟩
    · have hstop : Walk.rounds appendRound (d64OpenRead part dh buf s) = none := by
        rw [Walk.rounds, appendRound, if_neg fun hboth =>
          d64OpenRead_error hs hm hcached dh buf herror hboth.1]
        rfl
      exact ⟨fun _ _ h => absurd h herror, fun _ => Walk.ends_of_none hstop⟩
  · refine ⟨fun _ h => absurd h hwritable, fun _ => ⟨0, ?_⟩⟩
    rw [d64OpenAppend, if_pos (by simpa using hwritable)]
    rfl

/-! ### Looking for an empty entry -/

/-- The entry before `dh` is empty. -/
def EmptyEntry (s : State) (part : ℕ) (dh : D64dh) : Bool := typeByte s part dh = 0

/-- The last sector of a directory, with eight files in it. -/
def FullSector (s : State) (part : ℕ) (x : ℕ × ℕ) : Prop :=
  (∀ e < 8, EmptyEntry s part ⟨x.1, x.2, e + 1⟩ = false) ∧ s.Readable part x ∧
    (s.linkBytes part x).1 = 0

theorem ends_findEmptyRounds_iff (h : Reading s₀ part s) (hs : s₀.NoFault)
    (hm : (s₀.partition part).Mounted) (dh : D64dh) :
    Walk.Ends (Walk.rounds (findEmptyRound part)) (dh, s) ↔
      Walk.Ends (walkEntries s₀ part (EmptyEntry s₀ part)) dh := by
  refine Walk.ends_iff_of_simulates (fun x dh => x.1 = dh ∧ Reading s₀ part x.2) ?_ ⟨rfl, h⟩
  rintro ⟨d, s⟩ _ ⟨rfl, h⟩
  obtain ⟨res, dh', s', heq, hreading, hzero, hne, -, -⟩ := nextdirentry_reading h hs hm d
  rw [Walk.rounds, findEmptyRound, walkEntries, heq]
  dsimp only
  by_cases hres : res = 0
  · obtain ⟨hstep, htype⟩ := hzero hres
    rw [hstep, htype]
    by_cases hempty : typeByte s₀ part dh' = 0
    · rw [if_neg fun hboth => hboth.2 hempty]
      refine .inl ⟨rfl, ?_⟩
      simp [EmptyEntry, hempty]
    · rw [if_pos ⟨hres, hempty⟩]
      refine .inr ⟨_, dh', rfl, ?_, rfl, hreading⟩
      simp [EmptyEntry, hempty]
  · rw [if_neg fun hboth => hres hboth.1, hne hres]
    exact .inl ⟨rfl, rfl⟩

/-- Where the loop of `find_empty_entry` stops: at the end of the walk along the sectors, and with a
negative result if that is a full last sector. -/
structure Stopped (s₀ : State) (part : ℕ) (x : ℕ × ℕ) (r : ℤ × D64dh × State) : Prop where
  reading : Reading s₀ part r.2.2
  place : ∃ n y, Walk.place (walkSectors s₀ part (EmptyEntry s₀ part)) x n = some y ∧
    walkSectors s₀ part (EmptyEntry s₀ part) y = none ∧
    (r.1 < 0 ↔ FullSector s₀ part y) ∧ (r.1 < 0 → r.2.1 = ⟨y.1, y.2, 8⟩)

/-- A walk that stops after the next sector stops after this one. -/
theorem Stopped.of_link {x y : ℕ × ℕ} {r : ℤ × D64dh × State} (h : Stopped s₀ part y r)
    (hlink : walkSectors s₀ part (EmptyEntry s₀ part) x = some y) : Stopped s₀ part x r := by
  obtain ⟨n, z, hplace, hrest⟩ := h.place
  refine ⟨h.reading, 1 + n, z, ?_, hrest⟩
  rw [Walk.place_add]
  show ((some x).bind _).bind _ = _
  rw [Option.bind_some, hlink, Option.bind_some, hplace]

theorem findEmpty_stopped (hs : s₀.NoFault) (hm : (s₀.partition part).Mounted) {fuel e : ℕ}
    {x : ℕ × ℕ} {r : ℤ × D64dh × State} (h : Reading s₀ part s) (he : e ≤ 8)
    (hgo : ∀ e' < e, EmptyEntry s₀ part ⟨x.1, x.2, e' + 1⟩ = false)
    (hloop : Walk.loop (findEmptyRound part) fuel (⟨x.1, x.2, e⟩, s) = some r) :
    Stopped s₀ part x r := by
  induction fuel generalizing x e s with
  | zero => cases hloop
  | succ fuel ih =>
    obtain ⟨res, dh', s', heq, hreading, hzero, hne, hend, hsame⟩ :=
      nextdirentry_reading h hs hm ⟨x.1, x.2, e⟩
    rw [Walk.loop, findEmptyRound, heq] at hloop
    dsimp only at hloop
    by_cases hres : res = 0
    · obtain ⟨hstep, htype⟩ := hzero hres
      have hnotneg : ¬res < 0 := by omega
      rw [htype] at hloop
      by_cases h8 : e = 8
      · subst h8
        rw [dirStep_last] at hstep
        obtain ⟨y, hlink, hy⟩ := Option.bind_eq_some_iff.mp hstep
        split at hy
        · next hvalid =>
          cases hy
          have hwalk : walkSectors s₀ part (EmptyEntry s₀ part) x = some y := by
            rw [walkSectors_of_go hgo, hlink]
          refine Stopped.of_link ?_ hwalk
          by_cases hempty : typeByte s₀ part ⟨y.1, y.2, 1⟩ = 0
          · rw [if_neg fun hboth => hboth.2 hempty] at hloop
            cases hloop
            have hstop : EmptyEntry s₀ part ⟨y.1, y.2, 0 + 1⟩ = true := by simp [EmptyEntry, hempty]
            refine ⟨hreading, 0, y, rfl, walkSectors_of_stop hvalid (by decide) hstop,
              ⟨fun hneg => absurd hneg hnotneg, fun hfull => ?_⟩, fun hneg => absurd hneg hnotneg⟩
            rw [hfull.1 0 (by decide)] at hstop
            cases hstop
          · rw [if_pos ⟨hres, hempty⟩] at hloop
            refine ih hreading (by decide) (fun e' he' => ?_) hloop
            obtain rfl : e' = 0 := by omega
            simp [EmptyEntry, hempty]
        · cases hy
      · rw [dirStep_within h8] at hstep
        split at hstep
        · next hvalid =>
          cases hstep
          by_cases hempty : typeByte s₀ part ⟨x.1, x.2, e + 1⟩ = 0
          · rw [if_neg fun hboth => hboth.2 hempty] at hloop
            cases hloop
            have hstop : EmptyEntry s₀ part ⟨x.1, x.2, e + 1⟩ = true := by simp [EmptyEntry, hempty]
            refine ⟨hreading, 0, x, rfl, walkSectors_of_stop hvalid (by omega) hstop,
              ⟨fun hneg => absurd hneg hnotneg, fun hfull => ?_⟩, fun hneg => absurd hneg hnotneg⟩
            rw [hfull.1 e (by omega)] at hstop
            cases hstop
          · rw [if_pos ⟨hres, hempty⟩] at hloop
            refine ih hreading (by omega) (fun e' he' => ?_) hloop
            by_cases hlast : e' = e
            · rw [hlast]
              simp [EmptyEntry, hempty]
            · exact hgo e' (by omega)
        · cases hstep
    · rw [if_neg fun hboth => hres hboth.1] at hloop
      cases hloop
      have hnone := hne hres
      by_cases h8 : e = 8
      · subst h8
        rw [dirStep_last] at hnone
        cases hlink : s₀.link part x with
        | none =>
          refine ⟨hreading, 0, x, rfl, by rw [walkSectors_of_go hgo, hlink], ?_, fun hneg => hsame hneg⟩
          rw [hend]
          exact ⟨fun hat => ⟨hgo, hat.2⟩, fun hfull => ⟨rfl, hfull.2⟩⟩
        | some y =>
          rw [hlink, Option.bind_some] at hnone
          have hinvalid : ¬ValidTS (s₀.type part) (s₀.lastTrack part) y.1 y.2 := by
            intro hvalid
            rw [if_pos hvalid] at hnone
            cases hnone
          have hnotneg : ¬res < 0 := by
            intro hneg
            have hat := hend.mp hneg
            rw [State.link, if_neg fun hboth => hboth.2 hat.2.2] at hlink
            cases hlink
          refine Stopped.of_link (y := y) ?_ (by rw [walkSectors_of_go hgo, hlink])
          exact ⟨hreading, 0, y, rfl, walkSectors_of_not_valid hinvalid,
            ⟨fun hneg => absurd hneg hnotneg, fun hfull => absurd hfull.2.1.1 hinvalid⟩,
            fun hneg => absurd hneg hnotneg⟩
      · rw [dirStep_within h8] at hnone
        have hinvalid : ¬ValidTS (s₀.type part) (s₀.lastTrack part) x.1 x.2 := by
          intro hvalid
          rw [if_pos hvalid] at hnone
          cases hnone
        have hnotneg : ¬res < 0 := fun hneg => h8 (hend.mp hneg).1
        exact ⟨hreading, 0, x, rfl, walkSectors_of_not_valid hinvalid,
          ⟨fun hneg => absurd hneg hnotneg, fun hfull => absurd hfull.2.1.1 hinvalid⟩,
          fun hneg => absurd hneg hnotneg⟩

/-- The directory is full, and the search for another sector goes round the tracks for ever. -/
def ExtendsForever (s : State) (part : ℕ) (x : ℕ × ℕ) : Prop :=
  s.isDnp part = true ∧ ∃ n y, Walk.place (walkSectors s part (EmptyEntry s part)) x n = some y ∧
    FullSector s part y ∧ FullFromLast s part y.1

theorem Reading.coherent (h : Reading s₀ part s) (hs : Coherent s₀) : Coherent s := by
  obtain ⟨⟨errorcache, scratch, error, rfl⟩, -⟩ := h
  exact ⟨hs.noFault, hs.maxPart, hs.first.congr rfl rfl, fun b hb => (hs.second b hb).congr rfl rfl,
    hs.apart⟩

theorem walkSectors_fullSector {x : ℕ × ℕ} (h : FullSector s part x) :
    walkSectors s part (EmptyEntry s part) x = none := by
  rw [walkSectors_of_go h.1, State.link, if_neg fun hboth => hboth.2 h.2.2]

theorem findEmptyEntry_terminates_iff (hs : Coherent s) (hlt : part < s.maxPart)
    (hm : (s.partition part).Mounted) (hcached : s.Cached part) (track sector : ℕ) :
    (∃ fuel, (findEmptyEntry fuel part track sector s).isSome) ↔
      ¬Walk.Revisits (walkSectors s part (EmptyEntry s part)) (dirStart s part track sector) ∧
        ¬ExtendsForever s part (dirStart s part track sector) := by
  generalize hx : dirStart s part track sector = x
  have hopen : (d64Opendir part track sector s).2 = (⟨x.1, x.2, 0⟩, s) := by
    rw [d64Opendir_eq hs.noFault, hx]
  have hself := reading_self hcached
  have hwalk : Walk.Terminates (findEmptyRound part) (⟨x.1, x.2, 0⟩, s) ↔
      ¬Walk.Revisits (walkSectors s part (EmptyEntry s part)) x := by
    rw [Walk.terminates_iff_ends, ends_findEmptyRounds_iff hself hs.noFault hm,
      ends_walkEntries_iff (Nat.zero_le 8) (fun e he => absurd he (Nat.not_lt_zero e)),
      ends_walkSectors_iff]
  rw [← hwalk]
  -- What the search for another sector does in the state that the loop leaves.
  have hsearch : ∀ {fuel r}, Walk.loop (findEmptyRound part) fuel (⟨x.1, x.2, 0⟩, s) = some r →
      r.1 < 0 → ((∃ fuel, (getNextSector fuel part r.2.1.track r.2.1.sector r.2.2).isSome) ↔
        ¬ExtendsForever s part x) := by
    intro fuel r hloop hneg
    have hstopped := findEmpty_stopped hs.noFault hm hself (Nat.zero_le 8)
      (fun e he => absurd he (Nat.not_lt_zero e)) hloop
    obtain ⟨n, y, hplace, hend, hfull, hdh⟩ := hstopped.place
    have hcoherent := hstopped.reading.coherent hs
    have hfully := hfull.mp hneg
    obtain ⟨⟨errorcache, scratch, error, hstate⟩, -⟩ := hstopped.reading
    rw [hstate] at hcoherent
    have hrange : InRange { s with errorcache, scratch, error } part y.1 y.2 :=
      ⟨hlt, hm, hfully.2.1.1⟩
    rw [hdh hneg, hstate, getNextSector_terminates_iff hcoherent hrange]
    refine not_congr ⟨fun hlast => ⟨hlast.1, n, y, hplace, hfully, hlast.2⟩, ?_⟩
    rintro ⟨hdnp, m, z, hplace', hfullz, hlast⟩
    obtain rfl := Walk.end_unique hplace hend hplace' (walkSectors_fullSector hfullz)
    exact ⟨hdnp, hlast⟩
  constructor
  · rintro ⟨fuel, h⟩
    rw [findEmptyEntry, hopen] at h
    cases hloop : Walk.loop (findEmptyRound part) fuel (⟨x.1, x.2, 0⟩, s) with
    | none =>
      rw [hloop] at h
      cases h
    | some r =>
      refine ⟨⟨fuel, by rw [hloop]; rfl⟩, ?_⟩
      by_cases hneg : r.1 < 0
      · rw [← hsearch hloop hneg]
        refine ⟨fuel, ?_⟩
        rw [hloop] at h
        obtain ⟨res, dh, s'⟩ := r
        dsimp only at h hneg ⊢
        rw [if_neg (by omega), if_pos hneg] at h
        cases hnext : getNextSector fuel part dh.track dh.sector s' with
        | none =>
          rw [hnext] at h
          cases h
        | some q => rfl
      · have hstopped := findEmpty_stopped hs.noFault hm hself (Nat.zero_le 8)
          (fun e he => absurd he (Nat.not_lt_zero e)) hloop
        obtain ⟨n, y, hplace, hend, hfull, -⟩ := hstopped.place
        rintro ⟨-, m, z, hplace', hfullz, -⟩
        obtain rfl := Walk.end_unique hplace hend hplace' (walkSectors_fullSector hfullz)
        exact hneg (hfull.mpr hfullz)
  · rintro ⟨⟨fuel, h⟩, hforever⟩
    obtain ⟨r, hloop⟩ := Option.isSome_iff_exists.mp h
    by_cases hneg : r.1 < 0
    · obtain ⟨fuel', h'⟩ := (hsearch hloop hneg).mpr hforever
      obtain ⟨q, hq⟩ := Option.isSome_iff_exists.mp h'
      have hnext := getNextSector_mono (Nat.le_max_right fuel fuel') hq
      refine ⟨max fuel fuel', ?_⟩
      rw [findEmptyEntry, hopen, Walk.loop_mono hloop (Nat.le_max_left fuel fuel')]
      obtain ⟨res, dh, s'⟩ := r
      dsimp only at hneg hnext ⊢
      rw [if_neg (by omega), if_pos hneg, hnext]
      dsimp only
      split <;> rfl
    · refine ⟨fuel, ?_⟩
      rw [findEmptyEntry, hopen, hloop]
      obtain ⟨res, dh, s'⟩ := r
      dsimp only at hneg ⊢
      by_cases hpos : res > 0
      · rw [if_pos hpos]
        rfl
      · rw [if_neg hpos, if_neg hneg]
        rfl

end NoDiskEmu.Dxx
