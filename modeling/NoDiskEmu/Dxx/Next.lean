import NoDiskEmu.Dxx.Search
import NoDiskEmu.Dxx.Marking

/-! Which sector `get_next_sector` finds on an image whose BAM counts its free sectors right. -/

namespace NoDiskEmu.Dxx

open Library

variable {s s' s₀ : State} {part track sector : ℕ}

/-! ### The error message while the BAM is looked at -/

/-- The message is the old one, or none any more: it is reset when there is no second BAM buffer. -/
def KeepsError (s s' : State) : Prop := s'.error = s.error ∨ s'.error = ⟨ERROR_OK, 0, 0⟩

theorem KeepsError.refl (s : State) : KeepsError s s := .inl rfl

theorem KeepsError.trans {s'' : State} (h : KeepsError s s') (h' : KeepsError s' s'') :
    KeepsError s s'' := by
  rcases h' with h' | h'
  · rwa [KeepsError, h']
  · exact .inr h'

theorem KeepsError.ok (h : KeepsError s s') (hok : s.error.code = ERROR_OK) :
    s'.error.code = ERROR_OK := by
  rcases h with h | h
  · rwa [h]
  · rw [h]

theorem flushBam_error (hs : s.NoFault) : (flushBam s).2.error = s.error ∧ (flushBam s).2.NoFault := by
  rw [flushBam, bamBufferFlush]
  split
  · rw [imageWrite_ok hs]
    exact ⟨rfl, hs⟩
  · exact ⟨rfl, hs⟩

theorem loadBam_error (hs : s.NoFault) (part track sector : ℕ) :
    (loadBam s part track sector).2.error = s.error := by
  obtain ⟨herror, hfault⟩ := flushBam_error hs
  rw [loadBam]
  generalize flushBam s = f at herror hfault
  dsimp only
  rw [imageRead_ok hfault]
  split
  · exact herror
  · split <;> exact herror

theorem chooseBam_error (s : State) : KeepsError s (chooseBam s) := by
  rw [chooseBam]
  cases hsecond : s.bamBuffer2 with
  | some b =>
    rw [bamBufferSwap, hsecond]
    exact .refl s
  | none =>
    dsimp only
    split
    · rw [bamBufferAlloc2]
      cases hfree : s.sysFree 0 with
      | none => exact .inr rfl
      | some free => exact .refl s
    · exact .refl s

theorem chooseBam_io (s : State) : (chooseBam s).io = s.io := by
  rw [chooseBam]
  cases hsecond : s.bamBuffer2 with
  | some b => rw [bamBufferSwap, hsecond]
  | none =>
    dsimp only
    split
    · rw [bamBufferAlloc2]
      cases hfree : s.sysFree 0 <;> rfl
    · rfl

theorem moveBamWindow_error (hs : s.NoFault) (part track : ℕ) (data : BamData) :
    KeepsError s (moveBamWindow s part track data).2.2 := by
  have hchoose := chooseBam_error s
  have hfault : (chooseBam s).NoFault := (chooseBam_io s).trans hs
  rw [moveBamWindow]
  dsimp only
  split
  · exact .refl s
  · split
    · exact hchoose
    · exact hchoose.trans (.inl (loadBam_error hfault _ _ _))

theorem isFree_error (hs : s.NoFault) (part track sector : ℕ) :
    KeepsError s (isFree s part track sector).2 := by
  have hmove := moveBamWindow_error hs part track .bitfield
  rw [isFree]
  split <;> exact hmove

theorem sectorsFree_error (hs : s.NoFault) (part track : ℕ) :
    KeepsError s (sectorsFree s part track).2 := by
  have hmove := moveBamWindow_error hs part track .freecount
  rw [sectorsFree]
  split
  · exact .refl s
  · dsimp only
    split <;> exact hmove

/-- A state that the search comes to while it looks at the BAM of `s₀`. -/
structure Searching (s₀ s : State) : Prop extends Looking s₀ s where
  error : KeepsError s₀ s

theorem Searching.refl (hs : Coherent s) : Searching s s := ⟨Looking.refl hs, .refl s⟩

theorem Searching.trans {s' : State} (h : Searching s₀ s) (h' : Searching s s') : Searching s₀ s' :=
  ⟨⟨h'.coherent, h.keeps.trans h'.keeps⟩, h.error.trans h'.error⟩

theorem Searching.sectorsFree (h : Searching s₀ s) (hlt : part < s₀.maxPart)
    (hm : (s₀.partition part).Mounted) (track : ℕ) :
    ∃ s', sectorsFree s part track = ((s₀.through part).sectorsFree track, s') ∧ Searching s₀ s' := by
  obtain ⟨s', hfree, hlook⟩ := h.toLooking.sectorsFree hlt hm track
  have herror := sectorsFree_error h.coherent.noFault part track
  rw [hfree] at herror
  exact ⟨s', hfree, hlook, h.error.trans herror⟩

theorem Searching.isFree (h : Searching s₀ s) (hr : InRange s₀ part track sector) :
    ∃ s', isFree s part track sector = (if (s₀.through part).isFree track sector then 1 else 0, s') ∧
      Searching s₀ s' := by
  obtain ⟨s', hfree, hlook⟩ := h.toLooking.isFree hr
  have herror := isFree_error h.coherent.noFault part track sector
  rw [hfree] at herror
  exact ⟨s', hfree, hlook, h.error.trans herror⟩

/-- `current_error` is set, and says that the disk is full if there was no error before. -/
def Refused (s s' : State) : Prop :=
  s'.error.code ≠ ERROR_OK ∧ (s.error.code = ERROR_OK → s'.error.code = ERROR_DISK_FULL)

theorem Searching.diskFull (h : Searching s₀ s) : Refused s₀ (diskFull s) := by
  rw [Dxx.diskFull]
  split
  · exact ⟨show ERROR_DISK_FULL ≠ ERROR_OK by decide, fun _ => rfl⟩
  · next herror => exact ⟨herror, fun hok => absurd (h.error.ok hok) herror⟩

namespace Partition

variable {p : Partition}

/-- The image has a free sector on the track. -/
def HasFree (p : Partition) (track : ℕ) : Prop := ∃ q, p.Valid track q ∧ p.isFree track q = true

/-- Every counter of the BAM is right. -/
def Consistent (p : Partition) : Prop := ∀ t, 1 ≤ t → t ≤ p.d64data.lastTrack → p.Counted t

theorem Consistent.hasFree_iff (h : p.Consistent) (track : ℕ) :
    p.sectorsFree track ≠ 0 ↔ p.HasFree track := by
  by_cases hrange : track < 1 ∨ track > p.d64data.lastTrack
  · have hzero : p.sectorsFree track = 0 := if_pos hrange
    refine ⟨fun hne => absurd hzero hne, ?_⟩
    rintro ⟨q, hv, -⟩
    have := hv.1
    have := hv.2.1
    omega
  · have hcounted := h track (by omega) (by omega)
    rw [Counted] at hcounted
    rw [hcounted, freeBits, Tally.tally_ne_zero_iff]
    constructor
    · rintro ⟨q, hq, hfree⟩
      exact ⟨q, ⟨by omega, by omega, hq⟩, hfree⟩
    · rintro ⟨q, hv, hfree⟩
      exact ⟨q, hv.2.2, hfree⟩

end Partition

/-! ### The track loop -/

/-- The tracks beside the directory track that the search goes through. -/
def Sweeps (type : DxxType) (p : Param) (u : ℕ) : Prop :=
  1 ≤ u ∧ u ≤ p.lastTrack ∧ u ≠ p.dirTrack ∧ (type = .d71 → u ≠ 53)

/-- A step goes to the next track away from the directory, or to the other side of it. -/
theorem Search.step_spec {type : DxxType} {p : Param} {v : Search} (hlast : p.lastTrack ≤ 154)
    (h1 : 1 ≤ v.track) (h2 : v.track ≤ p.lastTrack) (hdir : p.dirTrack < p.lastTrack) :
    (v.track < p.dirTrack ∧ 1 < v.track ∧ v.step type p = ⟨v.track - 1, v.sector, v.tries⟩) ∨
    (v.track < p.dirTrack ∧ v.track = 1 ∧ v.step type p = ⟨p.dirTrack + 1, 0, v.tries + 1⟩) ∨
    (p.dirTrack ≤ v.track ∧ ∃ next, v.track < next ∧ (type = .d71 → next ≠ 53) ∧
      (∀ u, v.track < u → u < next → type = .d71 ∧ u = 53) ∧
      (next ≤ p.lastTrack ∧ v.step type p = ⟨next, v.sector, v.tries⟩ ∨
        p.lastTrack < next ∧ v.step type p = ⟨p.dirTrack - 1, 0, v.tries + 1⟩)) := by
  rw [Search.step]
  dsimp only
  by_cases hbelow : v.track < p.dirTrack
  · rw [if_pos hbelow]
    by_cases hone : v.track = 1
    · refine .inr (.inl ⟨hbelow, hone, ?_⟩)
      rw [hone]
      exact if_neg (show ¬p.dirTrack + 1 > p.lastTrack by omega)
    · refine .inl ⟨hbelow, by omega, ?_⟩
      rw [show (v.track + 255) % 256 = v.track - 1 by omega, if_neg (show ¬v.track - 1 < 1 by omega)]
      exact if_neg (show ¬v.track - 1 > p.lastTrack by omega)
  · rw [if_neg hbelow, show (v.track + 1) % 256 = v.track + 1 by omega]
    generalize hnext : (if type = .d71 ∧ v.track + 1 = 53 then (v.track + 1 + 1) % 256
      else v.track + 1) = next
    have hcase : type = .d71 ∧ v.track + 1 = 53 ∧ next = 54 ∨
        ¬(type = .d71 ∧ v.track + 1 = 53) ∧ next = v.track + 1 := by
      split at hnext
      · next hskip => exact .inl ⟨hskip.1, hskip.2, by omega⟩
      · next hskip => exact .inr ⟨hskip, hnext.symm⟩
    refine .inr (.inr ⟨by omega, next, by omega, fun htype => ?_, fun u hu hu' => ?_, ?_⟩)
    · rcases hcase with ⟨-, -, rfl⟩ | ⟨hskip, rfl⟩
      · decide
      · exact fun h53 => hskip ⟨htype, h53⟩
    · rcases hcase with ⟨htype, h53, rfl⟩ | ⟨-, rfl⟩
      · exact ⟨htype, by omega⟩
      · omega
    · rw [if_neg (show ¬next < 1 by omega)]
      dsimp only
      by_cases hover : next > p.lastTrack
      · rw [if_pos hover]
        exact .inr ⟨hover, rfl⟩
      · rw [if_neg hover]
        exact .inl ⟨by omega, rfl⟩

theorem Search.step_sector (v : Search) (type : DxxType) (p : Param) :
    (v.step type p).sector = v.sector ∨ (v.step type p).sector = 0 := by
  rw [Search.step]
  dsimp only
  repeat' split
  all_goals first | exact .inl rfl | exact .inr rfl

/-- What the track loop knows when it comes to `v`: each sweep from the directory track to an end of
the disk has found no free sector, and neither has the part of this sweep before `v`. -/
structure Swept (p : Partition) (start : ℕ) (v : Search) : Prop where
  tries : v.tries ≤ 3
  place : v.track = start ∨ Sweeps p.imagetype.type p.d64data v.track
  first : v.track = start ∧ v.tries = 0 ∨ p.sectorsFree start = 0
  below : 1 ≤ v.tries → v.track < p.d64data.dirTrack → ∀ u, v.track < u → u < p.d64data.dirTrack →
    p.sectorsFree u = 0
  above : 1 ≤ v.tries → p.d64data.dirTrack < v.track → ∀ u, Sweeps p.imagetype.type p.d64data u →
    p.d64data.dirTrack < u → u < v.track → p.sectorsFree u = 0
  low : 2 ≤ v.tries → p.d64data.dirTrack < v.track → ∀ u, 1 ≤ u → u < p.d64data.dirTrack →
    p.sectorsFree u = 0
  high : 2 ≤ v.tries → v.track < p.d64data.dirTrack → ∀ u, Sweeps p.imagetype.type p.d64data u →
    p.d64data.dirTrack < u → p.sectorsFree u = 0
  all : v.tries = 3 → ∀ u, Sweeps p.imagetype.type p.d64data u → p.sectorsFree u = 0

/-- The directory track of the formats other than DNP. -/
structure Middle (p : Param) : Prop where
  two : 2 ≤ p.dirTrack
  le : p.dirTrack ≤ 40
  lt : p.dirTrack < p.lastTrack
  last : p.lastTrack ≤ 154

theorem Partition.Mounted.middle {p : Partition} (h : p.Mounted) (hdnp : ¬p.isDnp = true) :
    Middle p.d64data := by
  obtain ⟨fsize, name, hformat⟩ := h
  rcases imageFormat_cases hformat with hmem | ⟨-, hit, -⟩
  · have hall : ∀ f ∈ fixedFormats, 2 ≤ f.2.2.dirTrack ∧ f.2.2.dirTrack ≤ 40 ∧
        f.2.2.dirTrack < f.2.2.lastTrack ∧ f.2.2.lastTrack ≤ 154 := by decide
    obtain ⟨htwo, hle, hlt, hlast⟩ := hall _ hmem
    exact ⟨htwo, hle, hlt, hlast⟩
  · exact absurd (decide_eq_true hit) hdnp

namespace Swept

variable {p : Partition} {start : ℕ} {v : Search}

theorem range (h : Swept p start v) (hstart : 1 ≤ start ∧ start ≤ p.d64data.lastTrack) :
    1 ≤ v.track ∧ v.track ≤ p.d64data.lastTrack := by
  rcases h.place with heq | hsweep
  · rwa [heq]
  · exact ⟨hsweep.1, hsweep.2.1⟩

theorem ne_dir (h : Swept p start v) (hstart : start ≠ p.d64data.dirTrack) :
    v.track ≠ p.d64data.dirTrack := by
  rcases h.place with heq | hsweep
  · rwa [heq]
  · exact hsweep.2.2.1

/-- The sweep away from the directory has gone over all tracks below it. -/
theorem all_low (h : Swept p start v) (hone : v.track = 1) (hlow : v.track < p.d64data.dirTrack)
    (hzero : p.sectorsFree v.track = 0) (htries : 1 ≤ v.tries) {u : ℕ} (hu : 1 ≤ u)
    (hu' : u < p.d64data.dirTrack) : p.sectorsFree u = 0 := by
  by_cases heq : u = v.track
  · rwa [heq]
  · exact h.below htries hlow u (by omega) hu'

/-- The sweep away from the directory has gone over all tracks above it. -/
theorem all_high (h : Swept p start v) (hhigh : p.d64data.dirTrack < v.track)
    (hzero : p.sectorsFree v.track = 0) (htries : 1 ≤ v.tries) {next : ℕ}
    (hskip : ∀ u, v.track < u → u < next → p.imagetype.type = .d71 ∧ u = 53) {u : ℕ}
    (hu : Sweeps p.imagetype.type p.d64data u) (hdir : p.d64data.dirTrack < u) (hlt : u < next) :
    p.sectorsFree u = 0 := by
  rcases Nat.lt_trichotomy u v.track with hbefore | heq | hafter
  · exact h.above htries hhigh u hu hdir hbefore
  · rwa [heq]
  · obtain ⟨htype, h53⟩ := hskip u hafter hlt
    exact absurd h53 (hu.2.2.2 htype)

theorem step (h : Swept p start v) (hp : Middle p.d64data)
    (hstart : 1 ≤ start ∧ start ≤ p.d64data.lastTrack) (hdir : start ≠ p.d64data.dirTrack)
    (htries : v.tries < 3) (hzero : p.sectorsFree v.track = 0) :
    Swept p start (v.step p.imagetype.type p.d64data) := by
  obtain ⟨htwo, hle, hlt, hlast⟩ := hp
  have hfirst : p.sectorsFree start = 0 := by
    rcases h.first with ⟨heq, -⟩ | hfirst
    · rwa [← heq]
    · exact hfirst
  have hne := h.ne_dir hdir
  obtain ⟨h1, h2⟩ := h.range hstart
  rcases Search.step_spec hlast h1 h2 hlt with
    ⟨hlow, hone, heq⟩ | ⟨hlow, hone, heq⟩ | ⟨hhigh, next, hnext, h53, hskip, ⟨hin, heq⟩ | ⟨hout, heq⟩⟩
  all_goals rw [heq]
  · refine ⟨h.tries, .inr ⟨?_, ?_, ?_, ?_⟩, .inr hfirst, fun htries hlow' u hu hu' => ?_, ?_, ?_,
      fun htries _ => h.high htries hlow, fun hthree => ?_⟩ <;> dsimp only at *
    · omega
    · omega
    · omega
    · omega
    · by_cases hcur : u = v.track
      · rwa [hcur]
      · exact h.below htries hlow u (by omega) hu'
    · omega
    · omega
    · omega
  · refine ⟨?_, .inr ⟨?_, ?_, ?_, ?_⟩, .inr hfirst, ?_, ?_, fun hagain _ u hu hu' => ?_, ?_,
      fun hthree u hu => ?_⟩ <;> dsimp only at *
    · omega
    · omega
    · omega
    · omega
    · omega
    · omega
    · omega
    · exact h.all_low hone hlow hzero (by omega) hu hu'
    · omega
    · rcases Nat.lt_or_gt_of_ne hu.2.2.1 with hbelow | habove
      · exact h.all_low hone hlow hzero (by omega) hu.1 hbelow
      · exact h.high (by omega) hlow u hu habove
  · refine ⟨h.tries, .inr ⟨?_, hin, ?_, h53⟩, .inr hfirst, ?_, fun hagain _ u hu hu' hlt' => ?_,
      fun hagain _ => h.low hagain (by omega), ?_, fun hthree => ?_⟩ <;> dsimp only at *
    · omega
    · omega
    · omega
    · exact h.all_high (by omega) hzero hagain hskip hu hu' hlt'
    · omega
    · omega
  · refine ⟨?_, .inr ⟨?_, ?_, ?_, ?_⟩, .inr hfirst, ?_, ?_, ?_, fun hagain _ u hu hu' => ?_,
      fun hthree u hu => ?_⟩ <;> dsimp only at *
    · omega
    · omega
    · omega
    · omega
    · omega
    · omega
    · omega
    · omega
    · exact h.all_high (by omega) hzero (by omega) hskip hu hu' (by have := hu.2.1; omega)
    · rcases Nat.lt_or_gt_of_ne hu.2.2.1 with hbelow | habove
      · exact h.low (by omega) (by omega) u hu.1 hbelow
      · exact h.all_high (by omega) hzero (by omega) hskip hu habove (by have := hu.2.1; omega)

end Swept

/-- The tracks that a sector may be taken from after one on track `start`. -/
def Eligible (s : State) (part start t : ℕ) : Prop :=
  if start = (s.param part).dirTrack then t = start
  else 1 ≤ t ∧ t ≤ s.lastTrack part ∧ t ≠ (s.param part).dirTrack ∧
    (s.type part = .d71 → t = 53 → start = 53)

theorem eligible_iff (h1 : 1 ≤ track) (h2 : track ≤ s.lastTrack part)
    (hdir : track ≠ (s.param part).dirTrack) {t : ℕ} :
    Eligible s part track t ↔ t = track ∨ Sweeps (s.type part) (s.param part) t := by
  rw [Eligible, if_neg hdir]
  constructor
  · rintro ⟨ht1, ht2, hne, h53⟩
    by_cases hskip : s.type part = .d71 ∧ t = 53
    · exact .inl (hskip.2.trans (h53 hskip.1 hskip.2).symm)
    · exact .inr ⟨ht1, ht2, hne, fun htype heq => hskip ⟨htype, heq⟩⟩
  · rintro (rfl | ⟨ht1, ht2, hne, h53⟩)
    · exact ⟨h1, h2, hdir, fun _ h => h⟩
    · exact ⟨ht1, ht2, hne, fun htype heq => absurd heq (h53 htype)⟩

/-- Where the track loop ends: with a track that has free sectors, or on the third turn, when no
track has any. -/
structure Settled (s₀ : State) (part start sector : ℕ) (r : Search × State) : Prop where
  searching : Searching s₀ r.2
  sector : r.1.sector = sector ∨ r.1.sector = 0
  place : Eligible s₀ part start r.1.track
  found : r.1.tries ≠ 3 → (s₀.through part).sectorsFree r.1.track ≠ 0
  full : r.1.tries = 3 → ∀ u, Eligible s₀ part start u → (s₀.through part).sectorsFree u = 0

theorem trackRound_settles (hs : Coherent s₀) (hr : InRange s₀ part track sector)
    (hdnp : ¬s₀.isDnp part = true) (hdir : track ≠ (s₀.param part).dirTrack) :
    ∃ fuel r, Walk.loop (trackRound part) fuel (⟨track, sector, 0⟩, s₀) = some r ∧
      Settled s₀ part track sector r := by
  have hp : Middle (s₀.through part).d64data := hr.mounted.middle hdnp
  have hstart : 1 ≤ track ∧ track ≤ (s₀.through part).d64data.lastTrack := ⟨hr.valid.1, hr.valid.2.1⟩
  have helig {t : ℕ} : Eligible s₀ part track t ↔ t = track ∨ Sweeps (s₀.type part) (s₀.param part) t :=
    eligible_iff hr.valid.1 hr.valid.2.1 hdir
  refine Walk.exists_loop
    (I := fun y => Swept (s₀.through part) track y.1 ∧ Searching s₀ y.2 ∧
      (y.1.sector = sector ∨ y.1.sector = 0))
    (fun y => (3 - y.1.tries) * 1024 + stepsLeft (s₀.param part).dirTrack y.1.track)
    (fun y hy => ?_) ⟨?_, Searching.refl hs, .inl rfl⟩
  · obtain ⟨v, s⟩ := y
    obtain ⟨hswept, hsearch, hsector⟩ := hy
    dsimp only at hswept hsearch hsector
    by_cases htries : v.tries < 3
    · obtain ⟨s', hfree, hsearch'⟩ := hsearch.sectorsFree hr.lt hr.mounted v.track
      by_cases hzero : (s₀.through part).sectorsFree v.track = 0
      · refine .inr ⟨(v.step (s₀.type part) (s₀.param part), s'), ?_, ⟨?_, hsearch', ?_⟩, ?_⟩
        · rw [trackRound, if_pos htries, hfree]
          dsimp only
          rw [if_pos hzero, hsearch'.keeps.type, hsearch'.toLooking.param]
        · exact hswept.step hp hstart hdir htries hzero
        · rcases Search.step_sector v (s₀.type part) (s₀.param part) with hsame | hnew
          · rwa [hsame]
          · exact .inr hnew
        · have hrange := (hswept.range hstart).2
          have hlast := hp.last
          obtain ⟨hle, hstep⟩ : (v.step (s₀.type part) (s₀.param part)).track ≤ 255 ∧ _ :=
            Search.step_cases ((by decide : 1 ≤ 2).trans hp.two) hp.le hp.last (by omega)
          have hmax : stepsLeft (s₀.param part).dirTrack _ ≤ 512 := stepsLeft_le hle
          dsimp only
          rcases hstep with hmore | ⟨hsame, hless⟩
          · omega
          · rw [hsame]
            omega
      · refine .inl ⟨(v, s'), ?_, hsearch', hsector, helig.mpr hswept.place, fun _ => hzero,
          fun hthree => ?_⟩
        · rw [trackRound, if_pos htries, hfree]
          exact if_neg hzero
        · dsimp only at hthree
          omega
    · have hthree : v.tries = 3 := by
        have := hswept.tries
        omega
      refine .inl ⟨(v, s), if_neg htries, hsearch, hsector, helig.mpr hswept.place,
        fun hne => absurd hthree hne, fun _ u hu => ?_⟩
      rcases helig.mp hu with rfl | hsweep
      · rcases hswept.first with ⟨-, hnone⟩ | hfirst
        · omega
        · exact hfirst
      · exact hswept.all hthree u hsweep
  · refine ⟨Nat.zero_le 3, .inl rfl, .inl ⟨rfl, rfl⟩, ?_, ?_, ?_, ?_, ?_⟩
    all_goals
      intro htries
      cases htries

/-! ### The sector loop -/

/-- The rounds from sector `x` on to sector `q` of a track with `n` sectors. -/
def roundsTo (n q x : ℕ) : ℕ := if x ≤ q then q - x else n + q - x

/-- No track of the formats other than DNP has more than 40 sectors. -/
theorem sectorsPerTrack_le_40 {p : Partition} (hm : p.Mounted) (hdnp : ¬p.isDnp = true) (track : ℕ) :
    sectorsPerTrack p.imagetype.type track ≤ 40 := by
  have hle := sectorsPerTrack_le p.imagetype.type track
  cases htype : p.imagetype.type <;> simp only [htype] at hle ⊢
  case dnp => exact absurd (hm.isDnp_iff.mpr htype) hdnp
  all_goals omega

/-- The sector loop finds a free sector of the track, if there is one. -/
theorem sectorRound_finds (h : Searching s₀ s) (hlt : part < s₀.maxPart)
    (hm : (s₀.partition part).Mounted) (hdnp : ¬s₀.isDnp part = true) {x : ℕ}
    (hx : (s₀.through part).Valid track x) (hfree : (s₀.through part).HasFree track) :
    ∃ fuel r, Walk.loop (sectorRound part) fuel (⟨track, x, 99⟩, s) = some r ∧ Searching s₀ r.2 ∧
      r.1.tries ≠ 0 ∧ r.1.track = track ∧ (s₀.through part).Valid track r.1.sector ∧
      (s₀.through part).isFree track r.1.sector = true := by
  obtain ⟨q, hq, hbit⟩ := hfree
  have hn : sectorsPerTrack (s₀.type part) track ≤ 40 := sectorsPerTrack_le_40 hm hdnp track
  have hqn : q < sectorsPerTrack (s₀.type part) track := hq.2.2
  refine Walk.exists_loop
    (I := fun y => y.1.track = track ∧ (s₀.through part).Valid track y.1.sector ∧
      roundsTo (sectorsPerTrack (s₀.type part) track) q y.1.sector + 50 ≤ y.1.tries ∧
      y.1.tries ≤ 99 ∧ Searching s₀ y.2) (fun y => y.1.tries) (fun y hy => ?_) ⟨rfl, hx, ?_, le_rfl, h⟩
  · obtain ⟨⟨t, x, tries⟩, s⟩ := y
    obtain ⟨htrack, hvalid, hrounds, htries, hsearch⟩ := hy
    dsimp only at htrack hvalid hrounds htries hsearch
    subst htrack
    obtain ⟨s', hisfree, hsearch'⟩ := hsearch.isFree ⟨hlt, hm, hvalid⟩
    by_cases hx : (s₀.through part).isFree t x = true
    · refine .inl ⟨(⟨t, x, tries⟩, s'), ?_, hsearch', ?_, rfl, hvalid, hx⟩
      · rw [sectorRound, hisfree, hx]
        rfl
      · dsimp only
        omega
    · have hxn : x < sectorsPerTrack (s₀.type part) t := hvalid.2.2
      have hne : x ≠ q := fun heq => hx (heq ▸ hbit)
      generalize hnext : (if (x + 1) % 256 ≥ sectorsPerTrack (s₀.type part) t then 0 else (x + 1) % 256) =
        next
      have hnextn : next < sectorsPerTrack (s₀.type part) t ∧
          roundsTo (sectorsPerTrack (s₀.type part) t) q next + 1 =
            roundsTo (sectorsPerTrack (s₀.type part) t) q x := by
        rw [roundsTo, roundsTo]
        repeat' split
        all_goals split at hnext <;> omega
      refine .inr ⟨(⟨t, next, tries - 1⟩, s'), ?_, ⟨rfl, ⟨hvalid.1, hvalid.2.1, hnextn.1⟩, ?_, ?_, hsearch'⟩, ?_⟩
      · rw [sectorRound, hisfree]
        dsimp only
        rw [if_neg hx, if_pos (le_refl (0 : ℤ)), if_pos (show tries ≠ 0 by omega), hsearch'.keeps.type, hnext,
          show (tries + 255) % 256 = tries - 1 by omega]
      all_goals dsimp only; omega
  · dsimp only
    have hxn : x < sectorsPerTrack (s₀.type part) track := hx.2.2
    rw [roundsTo]
    split <;> omega

/-- The longest interleave of a format, and the shortest track. -/
def interleaveBound : DxxType → ℕ × ℕ
  | .d41 | .d71 | .none => (10, 17)
  | .d81 => (1, 40)
  | .dnp => (1, 256)
  | .d80 | .d82 => (5, 23)

theorem Partition.Mounted.interleave {p : Partition} (h : p.Mounted) :
    p.d64data.fileInterleave ≤ (interleaveBound p.imagetype.type).1 ∧
      p.d64data.dirInterleave ≤ (interleaveBound p.imagetype.type).1 := by
  obtain ⟨fsize, name, h⟩ := h
  rcases imageFormat_cases h with hmem | ⟨-, hit, hp⟩
  · have hall : ∀ f ∈ fixedFormats, f.2.2.fileInterleave ≤ (interleaveBound f.2.1.type).1 ∧
        f.2.2.dirInterleave ≤ (interleaveBound f.2.1.type).1 := by decide
    exact hall _ hmem
  · rw [hit, hp]
    exact ⟨show dnpparam.fileInterleave ≤ (interleaveBound .dnp).1 by decide,
      show dnpparam.dirInterleave ≤ (interleaveBound .dnp).1 by decide⟩

theorem le_sectorsPerTrack (type : DxxType) (track : ℕ) :
    (interleaveBound type).2 ≤ sectorsPerTrack type track := by
  cases type <;> simp only [sectorsPerTrack, interleaveBound] <;> repeat' split
  all_goals decide

/-- The jump lands on the track, also if the old sector is from a longer one. -/
theorem interleaved_lt {type : DxxType} (hdnp : type ≠ .dnp) {interleave start : ℕ} {v : Search}
    (hinterleave : interleave ≤ (interleaveBound type).1) (hsector : v.sector < sectorsPerTrack type start) :
    interleaved type interleave v < sectorsPerTrack type v.track := by
  have hmin := le_sectorsPerTrack type v.track
  have hmax := sectorsPerTrack_le type start
  generalize sectorsPerTrack type start = n at hsector hmax
  rw [interleaved]
  generalize sectorsPerTrack type v.track = m at hmin
  cases type <;> simp only [interleaveBound] at hinterleave hmin hmax
  case dnp => exact absurd rfl hdnp
  all_goals
    dsimp only
    repeat' split
    all_goals omega

/-! ### The search -/

/-- A search for a free sector is right: it returns 0 with one, if there is one on the tracks that it
may use, and otherwise 1 with an error. -/
structure Finds (s : State) (part : ℕ) (eligible : ℕ → Prop) (r : ℕ × ℕ × ℕ × State) : Prop where
  code : r.1 = 0 ∨ r.1 = 1
  iff : r.1 = 0 ↔ ∃ t, eligible t ∧ (s.through part).HasFree t
  found : r.1 = 0 → eligible r.2.1 ∧ (s.through part).Valid r.2.1 r.2.2.1 ∧
    (s.through part).isFree r.2.1 r.2.2.1 = true
  full : r.1 = 1 → Refused s r.2.2.2

theorem Finds.of_found {eligible : ℕ → Prop} {t q : ℕ} (ht : eligible t)
    (hv : (s.through part).Valid t q) (hfree : (s.through part).isFree t q = true) (s' : State) :
    Finds s part eligible (0, t, q, s') where
  code := .inl rfl
  iff := ⟨fun _ => ⟨t, ht, q, hv, hfree⟩, fun _ => rfl⟩
  found _ := ⟨ht, hv, hfree⟩
  full h := nomatch h

theorem Finds.of_full {eligible : ℕ → Prop} (h : ∀ t, eligible t → ¬(s.through part).HasFree t)
    (hs : Refused s s') (t q : ℕ) : Finds s part eligible (1, t, q, s') where
  code := .inr rfl
  iff := by
    constructor
    · rintro ⟨⟩
    · rintro ⟨t, ht, hfree⟩
      exact absurd hfree (h t ht)
  found h := nomatch h
  full _ := hs

/-- Behind the track loop, the search finds a free sector on a track that has one. -/
theorem searchNextSector_found (hr : InRange s₀ part track sector) (hdnp : ¬s₀.isDnp part = true)
    {interleave : ℕ} (hinterleave : interleave ≤ (interleaveBound (s₀.type part)).1) {fuel : ℕ}
    {v : Search} (hloop : Walk.loop (trackRound part) fuel (⟨track, sector, 0⟩, s) = some (v, s'))
    (hsettled : Settled s₀ part track sector (v, s')) (htries : v.tries ≠ 3)
    (hfree : (s₀.through part).HasFree v.track) :
    ∃ fuel q s'', searchNextSector fuel part track sector interleave s = some (0, v.track, q, s'') ∧
      Searching s₀ s'' ∧ (s₀.through part).Valid v.track q ∧ (s₀.through part).isFree v.track q = true := by
  have hsector : v.sector < sectorsPerTrack (s₀.type part) track := by
    rcases hsettled.sector with heq | heq
    · rw [show v.sector = sector from heq]
      exact hr.valid.2.2
    · rw [show v.sector = 0 from heq]
      exact Nat.zero_lt_of_lt hr.valid.2.2
  have hjump : (s₀.through part).Valid v.track (interleaved (s₀.type part) interleave v) := by
    obtain ⟨q, hq, -⟩ := hfree
    exact ⟨hq.1, hq.2.1, interleaved_lt (fun htype => hdnp (hr.mounted.isDnp_iff.mpr htype))
      hinterleave hsector⟩
  obtain ⟨fuel', ⟨v', s''⟩, hloop', hsearch, htries', htrack, hvalid, hbit⟩ :=
    sectorRound_finds hsettled.searching hr.lt hr.mounted hdnp hjump hfree
  dsimp only at htrack hvalid hbit htries'
  refine ⟨max fuel fuel', v'.sector, s'', ?_, hsearch, hvalid, hbit⟩
  rw [searchNextSector, Walk.loop_mono hloop (Nat.le_max_left _ _)]
  dsimp only
  rw [if_neg htries, hsettled.searching.keeps.type, Walk.loop_mono hloop' (Nat.le_max_right _ _)]
  dsimp only
  rw [if_pos htries', htrack]

theorem searchNextSector_finds (hr : InRange s₀ part track sector) (hdnp : ¬s₀.isDnp part = true)
    (hcount : (s₀.through part).Consistent) {interleave : ℕ}
    (hinterleave : interleave ≤ (interleaveBound (s₀.type part)).1)
    (h : ∃ fuel r, Walk.loop (trackRound part) fuel (⟨track, sector, 0⟩, s) = some r ∧
      Settled s₀ part track sector r) :
    ∃ fuel r, searchNextSector fuel part track sector interleave s = some r ∧
      Finds s₀ part (Eligible s₀ part track) r := by
  obtain ⟨fuel, ⟨v, s'⟩, hloop, hsettled⟩ := h
  by_cases htries : v.tries = 3
  · refine ⟨fuel, (1, v.track, v.sector, diskFull s'), ?_, Finds.of_full (fun t ht hfree => ?_)
      hsettled.searching.diskFull _ _⟩
    · rw [searchNextSector, hloop]
      exact if_pos htries
    · exact (hcount.hasFree_iff t).mpr hfree (hsettled.full htries t ht)
  · have hfree := (hcount.hasFree_iff v.track).mp (hsettled.found htries)
    obtain ⟨fuel', q, s'', hrun, -, hvalid, hbit⟩ :=
      searchNextSector_found hr hdnp hinterleave hloop hsettled htries hfree
    exact ⟨fuel', _, hrun, Finds.of_found hsettled.place hvalid hbit s''⟩

/-- On every image other than a DNP one whose counters are right, `get_next_sector` ends with a free
sector on one of the tracks that it may use, or with an error if there is none. -/
theorem getNextSector_exact (hs : Coherent s) (hr : InRange s part track sector)
    (hdnp : ¬s.isDnp part = true) (hcount : (s.through part).Consistent) :
    ∃ fuel r, getNextSector fuel part track sector s = some r ∧
      Finds s part (Eligible s part track) r := by
  obtain ⟨hfile, hdir⟩ := hr.mounted.interleave
  by_cases heq : track = (s.param part).dirTrack
  · obtain ⟨s', hfree, hsearch⟩ := (Searching.refl hs).sectorsFree hr.lt hr.mounted track
    have helig : ∀ t, Eligible s part track t ↔ t = track := fun t => by rw [Eligible, if_pos heq]
    by_cases hzero : (s.through part).sectorsFree track = 0
    · refine ⟨0, (1, track, sector, diskFull s'), ?_, Finds.of_full (fun t ht hfree => ?_)
        hsearch.diskFull _ _⟩
      · rw [getNextSector, if_neg hdnp, if_pos heq, hfree]
        exact if_pos hzero
      · rw [(helig t).mp ht] at hfree
        exact (hcount.hasFree_iff track).mpr hfree hzero
    · -- the counter of the directory track is read once more
      obtain ⟨s'', hfree', hsearch'⟩ := hsearch.sectorsFree hr.lt hr.mounted track
      obtain ⟨fuel, r, hrun, hfinds⟩ := searchNextSector_finds hr hdnp hcount hdir
        ⟨1, (⟨track, sector, 0⟩, s''), by
          rw [Walk.loop, trackRound, if_pos (show 0 < 3 by decide), hfree']
          dsimp only
          rw [if_neg hzero], hsearch', .inl rfl, (helig track).mpr rfl, fun _ => hzero, fun hthree => by cases hthree⟩
      refine ⟨fuel, r, ?_, hfinds⟩
      rw [getNextSector, if_neg hdnp, if_pos heq, hfree]
      dsimp only
      rw [if_neg hzero]
      exact hrun
  · obtain ⟨fuel, r, hrun, hfinds⟩ := searchNextSector_finds hr hdnp hcount hfile
      (trackRound_settles hs hr hdnp heq)
    refine ⟨fuel, r, ?_, hfinds⟩
    rw [getNextSector, if_neg hdnp, if_neg heq]
    exact hrun

/-- A D41 image with one free sector, 1/0. -/
def oneFree : State where
  partition _ := ⟨⟨.d41, false⟩, d41param, fun o => if o = 91396 ∨ o = 91397 then 1 else 0, true⟩
  maxPart := 1
  bamBuffer := ⟨255, 0, 0, false, fun _ => 0, 0⟩
  bamBuffer2 := none
  errorcache := ⟨255, 0, fun _ => 0⟩
  scratch _ := 0
  error := ⟨0, 0, 0⟩
  io _ := .ok
  sysFree _ := none

theorem oneFree_started : Started oneFree := ⟨rfl, by decide, ⟨rfl, rfl⟩, by rintro _ ⟨⟩⟩

theorem oneFree_consistent : (oneFree.through 0).Consistent := by
  have hall : ∀ t < 36, 1 ≤ t → (oneFree.partition 0).sectorsFree t = (oneFree.partition 0).freeBits t := by
    decide +kernel
  rw [oneFree_started.through]
  intro t h1 h2
  exact hall t (Nat.lt_succ_of_le h2) h1

/-- The witness of `getNextSector_exact`: from the last track of the disk. -/
theorem oneFree_getNextSector : ∃ fuel r, getNextSector fuel 0 35 16 oneFree = some r ∧
    Finds oneFree 0 (Eligible oneFree 0 35) r :=
  getNextSector_exact oneFree_started.coherent ⟨by decide, ⟨174848, [], by decide⟩, by decide⟩ (by decide)
    oneFree_consistent

end NoDiskEmu.Dxx
